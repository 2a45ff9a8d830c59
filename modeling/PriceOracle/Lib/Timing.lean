import Mathlib.Algebra.Order.Ring.Int
import Mathlib.Data.List.Basic
import Mathlib.Data.List.DropRight
import Mathlib.Order.Basic
import Mathlib.Order.Defs.LinearOrder

/-! # Windows and streaks

Windows of time that keep a distance, and levels that give way only after a streak. -/

/-! ## Spaced intervals

Half-open intervals of time, listed in the order in which they begin. -/

namespace PriceOracle.Lib.Spacing

/-- The points `n` with `start ≤ n < stop`. -/
structure Span where
  start : Nat
  stop : Nat
deriving DecidableEq

def Span.Covers (a : Span) (n : Nat) : Prop := a.start ≤ n ∧ n < a.stop

/-- Each interval begins at least `gap` after all the earlier ones have ended. -/
def Spaced (gap : Nat) (spans : List Span) : Prop :=
  spans.Pairwise fun a b => a.stop + gap ≤ b.start

variable {gap len : Nat} {spans : List Span}

theorem spaced_concat {b : Span} (h : Spaced gap spans)
    (hb : ∀ a ∈ spans, a.stop + gap ≤ b.start) : Spaced gap (spans ++ [b]) := by
  unfold Spaced
  rw [List.pairwise_append]
  refine ⟨h,List.pairwise_singleton _ b,fun a ha c hc => ?_⟩
  rw [List.mem_singleton] at hc
  exact hc ▸ hb a ha

theorem not_covers_stop (hgap : 0 < gap) (h : Spaced gap spans)
    (hlen : ∀ a ∈ spans, a.start < a.stop) {a b : Span} (ha : a ∈ spans) (hb : b ∈ spans) :
    ¬b.Covers a.stop := by
  rintro ⟨hstart,hstop⟩
  have hapart : (a = b) ∨ a.stop + gap ≤ b.start ∨ b.stop + gap ≤ a.start := by
    by_cases hab : a = b
    · exact .inl hab
    · refine .inr ?_
      have hsymm := List.Pairwise.forall_of_forall_of_flip
        (R := fun a b : Span => a = b ∨ a.stop + gap ≤ b.start ∨ b.stop + gap ≤ a.start)
        (fun x _ => .inl rfl) (h.imp fun h => .inr (.inl h)) (h.imp fun h => .inr (.inr h)) ha hb
      exact hsymm.resolve_left hab
  have hnonempty := hlen a ha
  rcases hapart with rfl | hlater | hearlier
  · exact absurd hstop (lt_irrefl _)
  · omega
  · omega

/-- No point of time is followed by more than one interval without a free point. -/
theorem exists_free (hgap : 0 < gap) (h : Spaced gap spans)
    (hnonempty : ∀ a ∈ spans, a.start < a.stop) (hlen : ∀ a ∈ spans, a.stop ≤ a.start + len)
    (n : Nat) : ∃ m, n ≤ m ∧ m ≤ n + len ∧ ∀ a ∈ spans, ¬a.Covers m := by
  by_cases hfree : ∀ a ∈ spans, ¬a.Covers n
  · exact ⟨n,le_refl n,Nat.le_add_right n len,hfree⟩
  · push Not at hfree
    obtain ⟨a,ha,hstart,hstop⟩ := hfree
    have hshort := hlen a ha
    exact ⟨a.stop,hstop.le,by omega,fun b hb => not_covers_stop hgap h hnonempty ha hb⟩

end PriceOracle.Lib.Spacing

/-! ## Asymmetric hysteresis

A level follows a sequence of targets: it rises to a target at once, and it falls only after a
number of targets in a row that were below it. -/

namespace PriceOracle.Lib.Hysteresis

variable {β : Type} [LinearOrder β]

structure Level (β : Type) where
  level : β
  streak : Nat

/-- The level after one more target. -/
def follow (relax : Nat) (prior : Option (Level β)) (target : β) : Level β :=
  match prior with
  | none => ⟨target, 0⟩
  | some l =>
    if l.level ≤ target ∨ relax ≤ l.streak + 1 then ⟨target, 0⟩ else ⟨l.level, l.streak + 1⟩

/-- What a level says of the targets it has followed. -/
structure Tracks (relax : Nat) (history : List β) (l : Level β) : Prop where
  counted : l.streak ≤ history.length
  below : ∀ b ∈ history.rtake l.streak, b < l.level
  pending : l.streak = 0 ∨ l.streak < relax
  settled : ∀ target ∈ history.getLast?, l.streak = 0 ↔ l.level = target

variable {relax : Nat} {history : List β} {l : Level β} {target : β}

theorem tracks_first : Tracks relax [target] (follow relax none target) where
  counted := Nat.zero_le _
  below b hb := by simp [follow] at hb
  pending := .inl rfl
  settled t ht := by
    rw [List.getLast?_singleton,Option.mem_some_iff] at ht
    simp [follow,ht]

theorem Tracks.follow (h : Tracks relax history l) :
    Tracks relax (history ++ [target]) (follow relax (some l) target) := by
  unfold Hysteresis.follow
  dsimp only
  split_ifs with hmoves
  · refine ⟨Nat.zero_le _,fun b hb => by simp at hb,.inl rfl,fun t ht => ?_⟩
    rw [List.getLast?_concat,Option.mem_some_iff] at ht
    simp [ht]
  · rw [not_or,not_le,not_le] at hmoves
    obtain ⟨hbelow,hpending⟩ := hmoves
    refine ⟨?_,fun b hb => ?_,.inr hpending,fun t ht => ?_⟩
    · rw [List.length_append,List.length_singleton]
      exact Nat.succ_le_succ h.counted
    · rw [List.rtake_concat_succ,List.mem_append,List.mem_singleton] at hb
      rcases hb with hb | rfl
      · exact h.below b hb
      · exact hbelow
    · rw [List.getLast?_concat,Option.mem_some_iff] at ht
      rw [← ht]
      exact iff_of_false (Nat.succ_ne_zero _) hbelow.ne'

theorem follow_rises (hle : l.level ≤ target) : (follow relax (some l) target).level = target := by
  rw [follow,if_pos (.inl hle)]

theorem level_of_falls (hfall : (follow relax (some l) target).level < l.level) :
    relax ≤ l.streak+1 ∧ target < l.level ∧ (follow relax (some l) target).level = target := by
  unfold follow at hfall ⊢
  dsimp only at hfall ⊢
  split_ifs at hfall ⊢ with hmoves
  · refine ⟨hmoves.resolve_left (not_le.2 hfall),hfall,rfl⟩
  · exact (lt_irrefl _ hfall).elim

/-- The last `relax` targets were at most the level. -/
def Sustained (relax : Nat) (history : List β) (level : β) : Prop :=
  relax ≤ history.length ∧ ∀ b ∈ history.rtake relax, b ≤ level

/-- A fall is sustained exactly if no target that was counted for it exceeds the last one. -/
theorem falls_sustained_iff (h : Tracks relax history l)
    (hfall : (follow relax (some l) target).level < l.level) :
    Sustained relax (history ++ [target]) (follow relax (some l) target).level ↔
      ∀ b ∈ history.rtake l.streak, b ≤ target := by
  obtain ⟨hdue,-,hlevel⟩ := level_of_falls hfall
  rw [hlevel,Sustained,List.length_append,List.length_singleton]
  cases relax with
  | zero =>
    have hnone : l.streak = 0 := h.pending.resolve_right (Nat.not_lt_zero _)
    simp [hnone]
  | succ n =>
    have hcount : n = l.streak := by
      have hpending := h.pending
      omega
    have hcounted := h.counted
    rw [List.rtake_concat_succ,hcount]
    constructor
    · rintro ⟨-,hall⟩ b hb
      exact hall b (List.mem_append_left _ hb)
    · intro hall
      refine ⟨Nat.succ_le_succ hcounted,fun b hb => ?_⟩
      rcases List.mem_append.1 hb with hb | hb
      · exact hall b hb
      · rw [List.mem_singleton.1 hb]

end PriceOracle.Lib.Hysteresis

/-! ## Values in force

Values are recorded at some points of time, and each is in force until the next one. -/

namespace PriceOracle.Lib.InForce

variable {β : Type} {read : Nat → Option β} {b l m : Nat} {v : β}

def inForce (read : Nat → Option β) : Nat → Option β
  | 0 => read 0
  | l + 1 => (read (l + 1)).or (inForce read l)

/-- The first point below `bound` with a value, or `bound` if there is none. -/
def firstPoint (read : Nat → Option β) (bound : Nat) : Nat :=
  ((List.range bound).find? fun l => (read l).isSome).getD bound

theorem inForce_of_some (h : read l = some v) : inForce read l = some v := by
  cases l with
  | zero => exact h
  | succ l => rw [inForce,h,Option.some_or]

theorem inForce_until (hv : read l = some v) (hlm : l ≤ m)
    (hnone : ∀ j, l < j → j ≤ m → read j = none) : inForce read m = some v := by
  induction m, hlm using Nat.le_induction with
  | base => exact inForce_of_some hv
  | succ m hlm ih =>
    rw [inForce,hnone (m+1) (by omega) (le_refl _),Option.none_or]
    exact ih fun j hj hjm => hnone j hj (by omega)

theorem inForce_eq_none_iff : inForce read l = none ↔ ∀ j ≤ l, read j = none := by
  induction l with
  | zero =>
    constructor
    · intro h j hj
      rw [Nat.le_zero.1 hj]
      exact h
    · exact fun h => h 0 (le_refl 0)
  | succ l ih =>
    rw [inForce,Option.or_eq_none_iff,ih]
    constructor
    · rintro ⟨hlast,hrest⟩ j hj
      rcases Nat.lt_or_eq_of_le hj with hlt | rfl
      · exact hrest j (by omega)
      · exact hlast
    · exact fun h => ⟨h (l+1) (le_refl _),fun j hj => h j (by omega)⟩

theorem firstPoint_le (read : Nat → Option β) (b : Nat) : firstPoint read b ≤ b := by
  unfold firstPoint
  cases hfind : (List.range b).find? fun l => (read l).isSome with
  | none => exact le_refl b
  | some k => exact (List.mem_range.1 (List.mem_of_find?_eq_some hfind)).le

/-- From the first point on there is a value in force. -/
theorem firstPoint_le_iff (hl : l < b) :
    firstPoint read b ≤ l ↔ (inForce read l).isSome = true := by
  rw [← Option.ne_none_iff_isSome,ne_eq,inForce_eq_none_iff]
  unfold firstPoint
  cases hfind : (List.range b).find? fun l => (read l).isSome with
  | none =>
    rw [List.find?_eq_none] at hfind
    refine iff_of_false (by rw [Option.getD_none]; omega) ?_
    rw [not_not]
    intro j hj
    simpa using hfind j (List.mem_range.2 (by omega))
  | some k =>
    rw [List.find?_range_eq_some] at hfind
    obtain ⟨hk,hkb,hbefore⟩ := hfind
    rw [Option.getD_some]
    constructor
    · intro hkl hall
      rw [hall k hkl] at hk
      simp at hk
    · intro hsome
      by_contra hlt
      apply hsome
      intro j hj
      simpa using hbefore j (by omega)

end PriceOracle.Lib.InForce
