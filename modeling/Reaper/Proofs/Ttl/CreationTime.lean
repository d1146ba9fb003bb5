import Reaper.Proofs.Selector.Fields
import Reaper.Proofs.Time.RoundTrip
import Reaper.Ttl

/-!
# Two ways to the creation time

The fixed mode takes the creation time from the metadata, the relative mode reads it from the document that the resource
is written to. At whole seconds of the years 0 to 9999 the two find the same instant (`lookup?_creationTimestamp`), and
so agree on the expiration (`creation_routes_agree`). Elsewhere they need not: a fraction of a second is not written, and
a year of five digits is not read.
-/

namespace Reaper

theorem Metadata.get?_encode_creationTimestamp (m : Metadata) :
    m.encode.get? "creationTimestamp" = m.creationTimestamp.map fun t => .string t.toSecondText :=
  Json.get?_ofPresent _ (by simp) (by simp)

/-- A written instant is seen as itself, be it a leap second. -/
theorem Instant.asInstant?_toSecondText {t : Instant} (h : t.IsWhole) (hyear : 0 ≤ t.date.year ∧ t.date.year ≤ 9999) :
    (Json.string t.toSecondText).asInstant? = some t := by
  simp only [Json.asInstant?, Instant.trim_toSecondText hyear, Instant.ofChars?_toSecondText h hyear, Option.some_or]

theorem Path.parse_creationTimestamp :
    parse ".metadata.creationTimestamp" =
      .ok ⟨".metadata.creationTimestamp", [.key "metadata", .key "creationTimestamp"]⟩ := rfl

namespace Resource

variable {r : Resource} {t : Instant}

/-- The path leads to the creation time as it is written. -/
theorem lookup?_creationTimestamp (hr : "metadata" ∉ r.fields.map (·.1)) (ht : r.metadata.creationTimestamp = some t) :
    Path.lookup? r.document ".metadata.creationTimestamp" = some (.string t.toSecondText) := by
  simp only [Path.lookup?, Path.parse_creationTimestamp, Path.resolve?, Path.follow?_metadata hr,
    Metadata.get?_encode_creationTimestamp, ht, Option.map_some]
  rfl

/-- A resource whose creation time is a whole second, perhaps a leap second, of the years 0 to 9999 has that instant
under the path of the creation time too, and so many seconds after the one are so many seconds after the other. The
metadata of the document are those of the resource when no other field goes by their name, as in every resource that was
read (`metadata_notMem_fields`). -/
theorem creation_routes_agree (r : Resource) (hr : "metadata" ∉ r.fields.map (·.1)) (t : Instant)
    (ht : r.metadata.creationTimestamp = some t) (hwhole : t.IsWhole) (hyear : 0 ≤ t.date.year ∧ t.date.year ≤ 9999) :
    (Path.lookup? r.document ".metadata.creationTimestamp").bind Json.asInstant? = some t ∧
      ∀ (fixed relative : TtlSpec) (s : Int), fixed.secondsAfterCreation = some s →
        relative.secondsAfterCreation = none → relative.fieldPath = none →
        relative.relativeTo = some ".metadata.creationTimestamp" → relative.secondsAfter = some s →
        fixed.expiration? r r.document = relative.expiration? r r.document := by
  have hread : (Path.lookup? r.document ".metadata.creationTimestamp").bind Json.asInstant? = some t := by
    rw [lookup?_creationTimestamp hr ht, Option.bind_some, Instant.asInstant?_toSecondText hwhole hyear]
  refine ⟨hread, fun fixed relative s hfixed hunfixed hnofield hpath hafter => ?_⟩
  have hfirst : fixed.expiration? r r.document = t.addSeconds? s := by
    simp [TtlSpec.expiration?, TtlMode.of?, TtlSpec.base?, TtlSpec.seconds?, hfixed, ht]
  have hsecond : relative.expiration? r r.document = t.addSeconds? s := by
    simp [TtlSpec.expiration?, TtlMode.of?, TtlSpec.base?, TtlSpec.seconds?, hunfixed, hnofield, hpath, hafter, hread]
  rw [hfirst, hsecond]

/-- A resource that was created in the leap second at the end of 2016. -/
def bornInLeapSecond : Resource := { metadata := { creationTimestamp := some ⟨1483228799, 1000000000⟩ } }

/-- A day after it is the last second of the next day. -/
theorem expiration?_bornInLeapSecond :
    Path.lookup? bornInLeapSecond.document ".metadata.creationTimestamp" = some (.string "2016-12-31T23:59:60Z") ∧
      TtlSpec.expiration? { relativeTo := some ".metadata.creationTimestamp", secondsAfter := some 86400 }
        bornInLeapSecond bornInLeapSecond.document = some ⟨1483315199, 0⟩ := by
  have hagree := creation_routes_agree bornInLeapSecond (by simp [bornInLeapSecond]) _ rfl (by decide) (by decide)
  have htext : Instant.toSecondText ⟨1483228799, 1000000000⟩ = "2016-12-31T23:59:60Z" := by decide +kernel
  exact ⟨htext ▸ lookup?_creationTimestamp (by simp [bornInLeapSecond]) rfl, (hagree.2 { secondsAfterCreation := some 86400 } _ 86400 rfl rfl rfl rfl rfl).symm⟩

end Resource

end Reaper
