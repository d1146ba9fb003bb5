import Reaper.Time.Duration

/-!
The running clock in whole milliseconds.

Sleeps end on whole milliseconds: at the first one that is not before their end. Moments in between are durations since
the start of the clock.
-/

namespace Reaper

/-- The moment at which a sleep of `d` that begins at `now` ends. The clock counts its seconds in a signed word; a sleep
that it cannot count lasts thirty years of 365 days. -/
def Duration.sleepEnd (now d : Duration) : Duration :=
  if d.nanos < (1 <<< 63) * perSecond then ⟨now.nanos + d.nanos⟩ else ⟨now.nanos + (ofSecs (30 * 365 * 86400)).nanos⟩

/-- The moment at which a wait of `d` ends whose length was computed at `now`: some time goes by, even if next to nothing
is to be waited for. -/
def Duration.waitEnd (now d : Duration) : Duration := now.sleepEnd ⟨max d.nanos 1⟩

/-- A wait ends after it has begun. -/
theorem Duration.lt_waitEnd (now d : Duration) : now.nanos < (now.waitEnd d).nanos := by
  unfold waitEnd sleepEnd
  split
  · exact Nat.lt_add_of_pos_right (Nat.lt_of_lt_of_le Nat.one_pos (Nat.le_max_right ..))
  · exact Nat.lt_add_of_pos_right (by decide)

/-- Milliseconds of the running clock, counted from its start. -/
abbrev Millis := Nat

namespace Millis

def moment (now : Millis) : Duration := Duration.ofMillis now

/-- The first millisecond that is not before a moment. -/
def reaching (d : Duration) : Millis := (d.nanos + (Duration.perMilli - 1)) / Duration.perMilli

/-- When a sleep that begins at `now` is over. -/
def after (now : Millis) (d : Duration) : Millis := reaching ((moment now).sleepEnd d)

/-- A millisecond that reaches a moment is not before it. -/
theorem le_moment_reaching (d : Duration) : d.nanos ≤ (moment (reaching d)).nanos := by
  simp only [reaching, moment, Duration.ofMillis, Duration.perMilli]
  omega

end Millis

end Reaper
