import OceanFs.Core.Clock
import OceanFs.Lib.CasLoop

/-!
One clock under concurrent calls.

`now` and `update` are compare-and-swap loops on the packed state. Each reads the physical time
once, before its loop. What they return rises, except at the top of the range: there the wall time
saturates while the counter starts again at zero, so the clock goes back.
-/

namespace OceanFs.Core.HlcClock

open Lib

/-- A call: of `update` when there is a received timestamp, of `now` otherwise. -/
structure Request where
  physical : ℕ
  received : Option Hlc

namespace Request

/-- The value that a call swaps in. -/
def next (r : Request) (c : HlcClock) : HlcClock :=
  match r.received with
  | none => c.now r.physical
  | some received => c.update received r.physical

/-- The wall time does not saturate, or the counter does not overflow. -/
def Fits (r : Request) (c : HlcClock) : Prop :=
  match r.received with
  | none => max c.wallTime r.physical < maxWall ∨ c.logical + 1 < 2 ^ 32
  | some received =>
    max (max c.wallTime received.wallTime) r.physical < maxWall ∨
      (if received.wallTime > c.wallTime then received.logical + 1
        else max c.logical received.logical + 1) < 2 ^ 32

instance : (r : Request) → (c : HlcClock) → Decidable (r.Fits c)
  | ⟨_, none⟩, _ => inferInstanceAs (Decidable (_ ∨ _))
  | ⟨_, some _⟩, _ => inferInstanceAs (Decidable (_ ∨ _))

/-- What a call must return: something above what it has received. -/
def Above (r : Request) (result : HlcClock) : Prop := ∀ h ∈ r.received, h < result

instance (r : Request) (result : HlcClock) : Decidable (r.Above result) :=
  inferInstanceAs (Decidable (∀ h ∈ r.received, h < result))

lemma lt_next {r : Request} {c : HlcClock} (h : r.Fits c) : c < r.next c ∧ r.Above (r.next c) := by
  obtain ⟨physical, _ | received⟩ := r
  · refine ⟨lt_stamp h (le_max_left ..) (Nat.lt_succ_self _), fun _ hr => ?_⟩
    simp at hr
  · have hfits : max (max c.wallTime received.wallTime) physical < maxWall ∨
        (if received.wallTime > c.wallTime then received.logical + 1
          else max c.logical received.logical + 1) < 2 ^ 32 := h
    have habove : received < c.update received physical := by
      refine lt_stamp hfits ?_ ?_
      · exact (le_max_right ..).trans (le_max_left ..)
      · split_ifs <;> omega
    refine ⟨?_, fun r hr => ?_⟩
    · change c < c.update received physical
      by_cases hwall : received.wallTime > c.wallTime
      · -- the wall time alone is above the clock's
        have hlt : c < ⟨received.wallTime, 0⟩ := Hlc.lt_iff.mpr (.inl hwall)
        have hle : (⟨received.wallTime, 0⟩ : Hlc) ≤ received :=
          Hlc.le_iff.mpr (.inr ⟨rfl, Nat.zero_le _⟩)
        exact (hlt.trans_le hle).trans habove
      · refine lt_stamp hfits ((le_max_left ..).trans (le_max_left ..)) ?_
        rw [if_neg hwall]
        omega
    · rw [← Option.some.inj hr]
      exact habove

end Request

/-- **The clock is strictly monotone** under any calls at any physical times, as long as no call
meets the top of the range. -/
theorem clock_monotone (wall : ℕ) (acts : List (CasLoop.Act Request))
    (hguard : Runs.Guarded (CasLoop.step Request.next) (CasLoop.SwapsOk Request.Fits)
      (CasLoop.start ⟨wall, 0⟩) acts) :
    Runs.Always (CasLoop.step Request.next) (CasLoop.Rising Request.Above)
      (CasLoop.start ⟨wall, 0⟩) acts := by
  have hnext : ∀ (r : Request) (c : HlcClock), r.Fits c → c < r.next c ∧ r.Above (r.next c) :=
    fun r c h => Request.lt_next h
  exact CasLoop.rising_of_swapsOk hnext ⟨wall, 0⟩ acts hguard

/-- Two calls overlap: the second one's swap fails and is made again. The physical time goes back in
between, and the last call receives the second highest timestamp. -/
def overlappingCalls : List (CasLoop.Act Request) :=
  [.call ⟨7, none⟩, .call ⟨5, some ⟨7, 3⟩⟩, .load 0, .load 1, .swap 0, .swap 0, .load 0, .swap 0,
    .call ⟨3, some ⟨maxWall, 2 ^ 32 - 2⟩⟩, .load 0, .swap 0]

theorem overlapping_calls_rise :
    Runs.Guarded (CasLoop.step Request.next) (CasLoop.SwapsOk Request.Fits)
        (CasLoop.start ⟨6, 0⟩) overlappingCalls ∧
      Runs.Always (CasLoop.step Request.next) (CasLoop.Rising Request.Above)
        (CasLoop.start ⟨6, 0⟩) overlappingCalls := by
  have hguard : Runs.Guarded (CasLoop.step Request.next) (CasLoop.SwapsOk Request.Fits)
      (CasLoop.start ⟨6, 0⟩) overlappingCalls := by decide +kernel
  exact ⟨hguard, clock_monotone 6 overlappingCalls hguard⟩

/-- Another call finishes behind them. -/
def callsAtTop : List (CasLoop.Act Request) :=
  overlappingCalls ++ [.call ⟨8, none⟩, .load 0, .swap 0]

/-- It returns the top wall time with the counter at zero. -/
theorem clock_goes_back :
    ¬ Runs.Always (CasLoop.step Request.next) (CasLoop.Rising Request.Above)
      (CasLoop.start ⟨6, 0⟩) callsAtTop := by
  decide +kernel

end OceanFs.Core.HlcClock
