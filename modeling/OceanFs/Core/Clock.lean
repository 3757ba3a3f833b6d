import OceanFs.Core.Types

/-!
The hybrid logical clock of a node.

The clock's packed state is exactly the last timestamp it gave out. Every reading also takes
the physical time; when the 32-bit counter would wrap, the wall time is bumped instead, and
saturates at the top of its 64 bits.
-/

namespace OceanFs.Core

abbrev HlcClock := Hlc

namespace HlcClock

def maxWall : ℕ := 2 ^ 64 - 1

/-- The guard against a wrapping counter, shared by the two rules. -/
def stamp (wall logical : ℕ) : Hlc :=
  if logical < 2 ^ 32 then ⟨wall, logical⟩ else ⟨min (wall + 1) maxWall, 0⟩

/-- The local-event rule. -/
def now (c : HlcClock) (physical : ℕ) : Hlc := stamp (max c.wallTime physical) (c.logical + 1)

/-- The receive rule. -/
def update (c : HlcClock) (received : Hlc) (physical : ℕ) : Hlc :=
  stamp (max (max c.wallTime received.wallTime) physical)
    (if received.wallTime > c.wallTime then received.logical + 1
      else max c.logical received.logical + 1)

lemma lt_stamp {h : Hlc} {wall logical : ℕ} (hfits : wall < maxWall ∨ logical < 2 ^ 32)
    (hw : h.wallTime ≤ wall) (hl : h.logical < logical) : h < stamp wall logical := by
  unfold stamp
  rw [Hlc.lt_iff]
  split_ifs <;> simp only <;> omega

end HlcClock

end OceanFs.Core
