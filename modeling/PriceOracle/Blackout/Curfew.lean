import PriceOracle.Lib.Timing
import PriceOracle.Model.Blackout

/-! # The curfew of one asset

What the blackout records say of one asset, and the account that is kept of its windows: the spans
in which those that are gone were in force, and the end they left behind. -/

namespace PriceOracle.Blackout

open Model Lib.MachineInt Lib.Spacing

/-- The window, the last end and the signals of an asset. -/
structure Curfew where
  window : Option BlackoutWindow
  lastEnd : Option Nat
  signals : Option VolatilitySignals

namespace Curfew

/-- The span `[start, stop)`, if there is anything in it. -/
def spanOf (start stop : Nat) : List Span := if start < stop then [⟨start, stop⟩] else []

/-- The span of the window. -/
def live (c : Curfew) : List Span :=
  match c.window with
  | some b => spanOf b.start b.stop
  | none => []

/-- The span in which the window has been in force if it is gone at `now`. -/
def untilNow (c : Curfew) (now : Nat) : List Span :=
  match c.window with
  | some b => spanOf b.start (min now b.stop)
  | none => []

def closeAt (c : Curfew) (stop : Nat) : Curfew := { c with window := none, lastEnd := some stop }

/-- The curfew with its window, if there is one, over. -/
def settled (c : Curfew) : Curfew :=
  match c.window with
  | some b => c.closeAt b.stop
  | none => c

/-- What a new window that begins at `start` is checked for. -/
structure CanOpen (c : Curfew) (now start : Nat) : Prop where
  ended : ∀ b ∈ c.window, b.stop ≤ now
  rested : ∀ l ∈ c.settled.lastEnd, satAdd64 l cooldownSecs ≤ start

variable {c : Curfew} {b : BlackoutWindow} {a : Span} {now start stop : Nat}

theorem mem_spanOf : a ∈ spanOf start stop ↔ start < stop ∧ a = ⟨start,stop⟩ := by
  unfold spanOf
  split_ifs with h <;> simp [h]

theorem live_of_window (h : c.window = some b) : c.live = spanOf b.start b.stop := by
  unfold live
  rw [h]

theorem live_of_none (h : c.window = none) : c.live = [] := by
  unfold live
  rw [h]

theorem untilNow_of_window (h : c.window = some b) :
    c.untilNow now = spanOf b.start (min now b.stop) := by
  unfold untilNow
  rw [h]

theorem untilNow_of_none (h : c.window = none) : c.untilNow now = [] := by
  unfold untilNow
  rw [h]

theorem stop_le_of_untilNow (h : a ∈ c.untilNow now) : a.start < a.stop ∧ a.stop ≤ now := by
  cases hw : c.window with
  | none =>
    rw [untilNow_of_none hw] at h
    cases h
  | some b =>
    rw [untilNow_of_window hw,mem_spanOf] at h
    obtain ⟨hlt,rfl⟩ := h
    exact ⟨hlt,min_le_left now b.stop⟩

theorem start_lt_of_live (h : a ∈ c.live) : a.start < a.stop := by
  cases hw : c.window with
  | none =>
    rw [live_of_none hw] at h
    cases h
  | some b =>
    rw [live_of_window hw,mem_spanOf] at h
    obtain ⟨hlt,rfl⟩ := h
    exact hlt

theorem untilNow_of_le (h : c.window = some b) (hb : now ≤ b.start) : c.untilNow now = [] := by
  rw [untilNow_of_window h]
  exact if_neg (by omega)

end Curfew

open Curfew

/-- The account of the windows that are gone, in their order. Only in the last half hour that 64 bits
can tell (`late`) may a window end before it begins, and nothing opens after that. -/
structure Accounted (gone : List Span) (late : Prop) (c : Curfew) : Prop where
  spaced : Spaced cooldownSecs (gone ++ c.live)
  brief : ∀ a ∈ gone ++ c.live, a.stop ≤ a.start + maxBlackoutSecs
  anchored : late ∨ ∀ a ∈ gone, ∃ l ∈ c.lastEnd, a.stop ≤ l
  bounded : ∀ b ∈ c.window, b.stop ≤ u64Max
  proper : ∀ b ∈ c.window, b.start < b.stop ∨ late ∧ b.stop ≤ volatilityBlackoutSecs

namespace Accounted

variable {gone : List Span} {late late' : Prop} {c : Curfew} {b : BlackoutWindow} {now : Nat}

theorem mono (h : Accounted gone late c) (hlate : late → late') : Accounted gone late' c where
  spaced := h.spaced
  brief := h.brief
  anchored := h.anchored.imp_left hlate
  bounded := h.bounded
  proper b hb := (h.proper b hb).imp_right fun h => ⟨hlate h.1,h.2⟩

theorem withSignals (h : Accounted gone late c) (signals : Option VolatilitySignals) :
    Accounted gone late { c with signals := signals } where
  spaced := h.spaced
  brief := h.brief
  anchored := h.anchored
  bounded := h.bounded
  proper := h.proper

/-- A window that ends leaves an end that is not before that of any window before it. -/
theorem close (h : Accounted gone late c) (hb : c.window = some b)
    (hgone : ∀ a ∈ gone, a.stop ≤ now) :
    Accounted (gone ++ c.untilNow now) late (c.closeAt (min now b.stop)) := by
  have hlive : (c.closeAt (min now b.stop)).live = [] := live_of_none rfl
  have hspaced := h.spaced
  have hbrief := h.brief
  rw [live_of_window hb] at hspaced hbrief
  have hfirst : Spaced cooldownSecs gone := (List.pairwise_append.1 hspaced).1
  have hcut : ∀ x ∈ c.untilNow now, x = ⟨b.start,min now b.stop⟩ ∧ b.start < b.stop := by
    intro x hx
    rw [untilNow_of_window hb,mem_spanOf] at hx
    exact ⟨hx.2,by omega⟩
  have hbefore : b.start < b.stop → ∀ x ∈ gone, x.stop + cooldownSecs ≤ b.start := fun hlt x hx =>
    (List.pairwise_append.1 hspaced).2.2 x hx ⟨b.start,b.stop⟩ (mem_spanOf.2 ⟨hlt,rfl⟩)
  refine ⟨?_,fun a ha => ?_,?_,by rintro _ ⟨⟩,by rintro _ ⟨⟩⟩
  · rw [hlive,List.append_nil,untilNow_of_window hb]
    unfold spanOf
    split_ifs with hlt
    · exact spaced_concat hfirst (hbefore (by omega))
    · rwa [List.append_nil]
  · rw [hlive,List.append_nil] at ha
    rcases List.mem_append.1 ha with ha | ha
    · exact hbrief a (List.mem_append_left _ ha)
    · obtain ⟨rfl,hlt⟩ := hcut a ha
      have hwhole := hbrief ⟨b.start,b.stop⟩ (List.mem_append_right _ (mem_spanOf.2 ⟨hlt,rfl⟩))
      dsimp only at hwhole ⊢
      omega
  · rcases h.proper b hb with hlt | hlate
    · refine .inr fun a ha => ⟨min now b.stop,rfl,?_⟩
      rcases List.mem_append.1 ha with ha | ha
      · have hearlier := hbefore hlt a ha
        have hnow := hgone a ha
        omega
      · exact (hcut a ha).1 ▸ le_refl _
    · exact .inl hlate.1

/-- Before a new window opens, the one that is over is accounted for. -/
theorem settle {start : Nat} (h : Accounted gone late c) (hopen : CanOpen c now start)
    (hgone : ∀ a ∈ gone, a.stop ≤ now) :
    Accounted (gone ++ c.untilNow now) late c.settled ∧ c.settled.window = none := by
  unfold settled
  cases hb : c.window with
  | none =>
    rw [untilNow_of_none hb,List.append_nil]
    exact ⟨h,hb⟩
  | some b =>
    have hclose := h.close hb hgone
    rw [min_eq_right (hopen.ended b hb)] at hclose
    exact ⟨hclose,rfl⟩

/-- A window that begins when the last end has rested for the cooldown. -/
theorem opened (h : Accounted gone late c) (hc : c.window = none)
    (hrested : ∀ l ∈ c.lastEnd, satAdd64 l cooldownSecs ≤ b.start) (hbounded : b.stop ≤ u64Max)
    (hproper : b.start < b.stop → ¬late ∧ b.stop ≤ b.start + maxBlackoutSecs)
    (hlate : ¬b.start < b.stop → late ∧ b.stop ≤ volatilityBlackoutSecs) :
    Accounted gone late { c with window := some b } := by
  have hspaced := h.spaced
  have hbrief := h.brief
  rw [live_of_none hc,List.append_nil] at hspaced hbrief
  have hlive : ({ c with window := some b } : Curfew).live = spanOf b.start b.stop :=
    live_of_window rfl
  refine ⟨?_,fun a ha => ?_,h.anchored,?_,?_⟩
  · rw [hlive]
    unfold spanOf
    split_ifs with hlt
    · refine spaced_concat hspaced fun a ha => ?_
      obtain ⟨l,hl,hle⟩ := h.anchored.resolve_left (hproper hlt).1 a ha
      have hrest := hrested l hl
      unfold satAdd64 at hrest
      dsimp only
      omega
    · rwa [List.append_nil]
  · rcases List.mem_append.1 ha with ha | ha
    · exact hbrief a ha
    · obtain ⟨hlt,rfl⟩ := mem_spanOf.1 ha
      exact (hproper hlt).2
  · rintro _ ⟨⟩
    exact hbounded
  · rintro _ ⟨⟩
    by_cases hlt : b.start < b.stop
    · exact .inl hlt
    · exact .inr (hlate hlt)

/-- Extending a window that is not over moves only its end. -/
theorem extend {newStop : Nat} (h : Accounted gone late c) (hb : c.window = some b)
    (hlt : b.start < b.stop) (hlater : b.stop < newStop)
    (hmax : newStop ≤ b.start + maxBlackoutSecs) (hbounded : newStop ≤ u64Max) :
    Accounted gone late { c with window := some { b with stop := newStop } } := by
  have hspaced := h.spaced
  have hbrief := h.brief
  rw [live_of_window hb] at hspaced hbrief
  have hlive : ({ c with window := some { b with stop := newStop } } : Curfew).live =
      [⟨b.start,newStop⟩] := by
    exact if_pos (hlt.trans hlater)
  refine ⟨?_,fun a ha => ?_,h.anchored,?_,?_⟩
  · rw [hlive]
    refine spaced_concat (List.pairwise_append.1 hspaced).1 fun a ha => ?_
    exact (List.pairwise_append.1 hspaced).2.2 a ha ⟨b.start,b.stop⟩ (mem_spanOf.2 ⟨hlt,rfl⟩)
  · rw [hlive] at ha
    rcases List.mem_append.1 ha with ha | ha
    · exact hbrief a (List.mem_append_left _ ha)
    · rw [List.mem_singleton] at ha
      exact ha ▸ hmax
  · rintro _ ⟨⟩
    exact hbounded
  · rintro _ ⟨⟩
    exact .inl (hlt.trans hlater)

end Accounted

end PriceOracle.Blackout
