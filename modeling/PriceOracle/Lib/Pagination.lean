import PriceOracle.Lib.Transaction
import Mathlib.Data.List.Basic
import Mathlib.Order.Basic

/-! # Pages behind a cursor

Entries with increasing keys are read a page at a time: a page starts at the entry the cursor
points to, and its own cursor points past what it returned. Following the cursors visits every entry
once, whatever the sizes of the pages. -/

namespace PriceOracle.Lib.Pagination

open Lib.Transaction

variable {β γ : Type} {xs : List (Nat × β)} {page : Nat → Nat → List γ × Option Nat}
  {allowed : Nat → Prop} {limits : Nat → Nat} {c : Nat}

def remaining (xs : List (Nat × β)) (c : Nat) : List (Nat × β) := xs.filter fun x => c ≤ x.1

theorem remaining_of_le (h : ∀ x ∈ xs, c ≤ x.1) : remaining xs c = xs := by
  unfold remaining
  simpa using h

theorem remaining_zero (xs : List (Nat × β)) : remaining xs 0 = xs :=
  remaining_of_le fun _ _ => Nat.zero_le _

/-- A page of the permitted size holds the next entries, and its cursor leads to the rest. -/
structure Pages (view : β → γ) (allowed : Nat → Prop) (xs : List (Nat × β))
    (page : Nat → Nat → List γ × Option Nat) : Prop where
  taken : ∀ c n, allowed n → (page c n).1 = ((remaining xs c).take n).map fun x => view x.2
  last : ∀ c n, allowed n → (page c n).2 = none → (remaining xs c).length ≤ n
  next : ∀ c n c', allowed n → (page c n).2 = some c' →
    n ≤ (remaining xs c).length ∧ remaining xs c' = (remaining xs c).drop n

/-- The pages read one after the other, each with its own limit; `none` when the fuel runs out. -/
def follow (page : Nat → Nat → List γ × Option Nat) (limits : Nat → Nat) :
    Nat → Nat → Nat → Option (List (List γ))
  | 0, _, _ => none
  | fuel + 1, i, c =>
    match page c (limits i) with
    | (entries, none) => some [entries]
    | (entries, some c') => (follow page limits fuel (i + 1) c').map (entries :: ·)

section Visits

variable {view : β → γ} (h : Pages view allowed xs page)

include h

/-- A page with a cursor is not empty. -/
theorem Pages.nonempty {n c' : Nat} {entries : List γ} (hallowed : allowed n) (hn : 0 < n)
    (hpage : page c n = (entries,some c')) : entries ≠ [] := by
  have htaken := h.taken c n hallowed
  have hnext := (h.next c n c' hallowed (by rw [hpage])).1
  rw [hpage] at htaken
  intro hempty
  have hlen := congrArg List.length htaken
  rw [hempty,List.length_map,List.length_take,List.length_nil] at hlen
  omega

/-- Following the cursors ends, and visits the entries from the first cursor on in their order. -/
theorem Pages.follow_eq (hlimits : ∀ i, allowed (limits i) ∧ 0 < limits i) {fuel : Nat} (i : Nat)
    (hfuel : (remaining xs c).length < fuel) :
    ∃ pages, follow page limits fuel i c = some pages ∧
      pages.flatten = (remaining xs c).map fun x => view x.2 := by
  induction fuel generalizing c i with
  | zero => omega
  | succ fuel ih =>
    obtain ⟨hallowed,hpos⟩ := hlimits i
    have htaken := h.taken c (limits i) hallowed
    unfold follow
    cases hpage : page c (limits i) with
    | mk entries next =>
      rw [hpage] at htaken
      dsimp only at htaken
      cases next with
      | none =>
        have hlast := h.last c (limits i) hallowed (by rw [hpage])
        refine ⟨[entries],rfl,?_⟩
        rw [List.flatten_cons,List.flatten_nil,List.append_nil,htaken,List.take_of_length_le hlast]
      | some c' =>
        obtain ⟨hle,hrest⟩ := h.next c (limits i) c' hallowed (by rw [hpage])
        have hshorter : (remaining xs c').length < fuel := by
          rw [hrest,List.length_drop]
          omega
        obtain ⟨pages,hpages,hflatten⟩ := ih (i+1) hshorter
        refine ⟨entries :: pages,?_,?_⟩
        · dsimp only
          rw [hpages,Option.map_some]
        · rw [List.flatten_cons,hflatten,htaken,hrest,← List.map_append,List.take_append_drop]

end Visits

section Sorted

variable (hsorted : xs.Pairwise fun x y => x.1 < y.1)

include hsorted

theorem remaining_pairwise (c : Nat) : (remaining xs c).Pairwise fun x y => x.1 < y.1 :=
  hsorted.filter _

theorem remaining_of_drop {n : Nat} {y : Nat × β} {ys : List (Nat × β)}
    (hdrop : (remaining xs c).drop n = y :: ys) : remaining xs y.1 = y :: ys := by
  have hmem : y ∈ remaining xs c := List.mem_of_mem_drop (by rw [hdrop]; exact List.mem_cons_self)
  have hcy : c ≤ y.1 := by simpa [remaining] using (List.mem_filter.1 hmem).2
  have htwice : remaining xs y.1 = (remaining xs c).filter fun x => y.1 ≤ x.1 := by
    unfold remaining
    rw [List.filter_filter]
    apply List.filter_congr
    intro x _
    rw [Bool.eq_iff_iff]
    simp only [decide_eq_true_eq,Bool.and_eq_true]
    omega
  have hsplit := remaining_pairwise hsorted c
  rw [← List.take_append_drop n (remaining xs c),hdrop] at hsplit
  obtain ⟨-,hrest,hcross⟩ := List.pairwise_append.1 hsplit
  rw [htwice]
  conv_lhs => rw [← List.take_append_drop n (remaining xs c),hdrop]
  rw [List.filter_append,List.filter_eq_nil_iff.2,List.filter_eq_self.2,List.nil_append]
  · intro x hx
    rcases List.mem_cons.1 hx with rfl | hx
    · simp
    · simpa using Nat.le_of_lt ((List.pairwise_cons.1 hrest).1 x hx)
  · intro x hx
    simpa using hcross x hx y List.mem_cons_self

/-- The entries between the first and the last one of a page are those of the page. -/
theorem filter_range_page {n : Nat} {x y : Nat × β} {page : List (Nat × β)}
    (hpage : (remaining xs c).take n = page) (hfirst : page.head? = some x)
    (hlast : page.getLast? = some y) :
    xs.filter (fun z => x.1 ≤ z.1 ∧ z.1 ≤ y.1) = page := by
  have hcx : c ≤ x.1 := by
    have hmem : x ∈ remaining xs c :=
      List.mem_of_mem_take (by rw [hpage]; exact List.mem_of_head? hfirst)
    simpa using (List.mem_filter.1 hmem).2
  have hwithin : xs.filter (fun z => x.1 ≤ z.1 ∧ z.1 ≤ y.1) =
      (remaining xs c).filter fun z => x.1 ≤ z.1 ∧ z.1 ≤ y.1 := by
    unfold remaining
    rw [List.filter_filter]
    apply List.filter_congr
    intro z _
    rw [Bool.eq_iff_iff]
    simp only [decide_eq_true_eq,Bool.and_eq_true]
    omega
  have hsplit := remaining_pairwise hsorted c
  rw [← List.take_append_drop n (remaining xs c),hpage] at hsplit
  obtain ⟨hinside,-,hcross⟩ := List.pairwise_append.1 hsplit
  have hup : ∀ z ∈ page, x.1 ≤ z.1 := by
    obtain ⟨rest,rfl⟩ : ∃ rest, page = x :: rest := ⟨page.tail,by
      rw [List.cons_head?_tail hfirst]⟩
    intro z hz
    rcases List.mem_cons.1 hz with rfl | hz
    · exact Nat.le_refl _
    · exact Nat.le_of_lt ((List.pairwise_cons.1 hinside).1 z hz)
  have hdown : ∀ z ∈ page, z.1 ≤ y.1 := by
    obtain ⟨init,rfl⟩ := List.getLast?_eq_some_iff.1 hlast
    intro z hz
    rcases List.mem_append.1 hz with hz | hz
    · exact Nat.le_of_lt ((List.pairwise_append.1 hinside).2.2 z hz y (by simp))
    · exact Nat.le_of_eq (congrArg Prod.fst (List.mem_singleton.1 hz))
  rw [hwithin,← List.take_append_drop n (remaining xs c),hpage,List.filter_append,
    List.filter_eq_self.2,List.filter_eq_nil_iff.2,List.append_nil]
  · intro z hz
    have := hcross y (List.mem_of_getLast? hlast) z hz
    simp only [decide_eq_true_eq]
    omega
  · intro z hz
    simpa using ⟨hup z hz,hdown z hz⟩

/-- A scan that returns a page and the key of the entry after it reads pages. -/
theorem pages_of_scan (view : β → γ) (allowed : Nat → Prop)
    (hpage : ∀ c n, allowed n → page c n = (((remaining xs c).take n).map fun x => view x.2,
      ((remaining xs c).drop n).head?.map Prod.fst)) : Pages view allowed xs page where
  taken c n hn := by rw [hpage c n hn]
  last c n hn hnone := by
    rw [hpage c n hn,Option.map_eq_none_iff,List.head?_eq_none_iff,List.drop_eq_nil_iff] at hnone
    exact hnone
  next c n c' hn hsome := by
    rw [hpage c n hn] at hsome
    cases hdrop : (remaining xs c).drop n with
    | nil => simp [hdrop] at hsome
    | cons y ys =>
      rw [hdrop,List.head?_cons,Option.map_some,Option.some.injEq] at hsome
      subst hsome
      refine ⟨?_,remaining_of_drop hsorted hdrop⟩
      by_contra hlt
      rw [List.drop_eq_nil_of_le (by omega)] at hdrop
      simp at hdrop

end Sorted

section Keyed

variable {read : Nat → Option β} {index : List Nat} {l : Nat} {x : Nat × β} {b : β}

/-- The entries of an index, each with its key; a key without an entry is passed over. -/
def keyed (read : Nat → Option β) (index : List Nat) : List (Nat × β) :=
  index.filterMap fun l => (read l).map fun b => (l, b)

theorem keyed_map_snd (view : β → γ) (read : Nat → Option β) (index : List Nat) :
    (keyed read index).map (fun x => view x.2) = (index.filterMap read).map view := by
  unfold keyed
  rw [List.map_filterMap,List.map_filterMap]
  congr 1
  funext l
  rw [Option.map_map]
  rfl

theorem keyed_sorted (hindex : index.Pairwise (· < ·)) :
    (keyed read index).Pairwise fun x y => x.1 < y.1 := by
  apply List.Pairwise.filterMap (R := (· < ·)) _ _ hindex
  intro a b hab x hx y hy
  obtain ⟨v,-,rfl⟩ := Option.map_eq_some_iff.1 (Option.mem_def.1 hx)
  obtain ⟨w,-,rfl⟩ := Option.map_eq_some_iff.1 (Option.mem_def.1 hy)
  exact hab

theorem keyed_cons_none (hl : read l = none) : keyed read (l :: index) = keyed read index := by
  unfold keyed
  rw [List.filterMap_cons_none]
  rw [hl,Option.map_none]

theorem keyed_cons_some (hl : read l = some b) :
    keyed read (l :: index) = (l,b) :: keyed read index := by
  unfold keyed
  rw [List.filterMap_cons_some]
  rw [hl,Option.map_some]

theorem remaining_cons_lt (hx : x.1 < c) : remaining (x :: xs) c = remaining xs c := by
  unfold remaining
  rw [List.filter_cons_of_neg]
  simpa using hx

theorem remaining_cons_ge (hx : c ≤ x.1) : remaining (x :: xs) c = x :: remaining xs c := by
  unfold remaining
  rw [List.filter_cons_of_pos]
  simpa using hx

theorem remaining_keyed_lt (hl : l < c) :
    remaining (keyed read (l :: index)) c = remaining (keyed read index) c := by
  cases hread : read l with
  | none => rw [keyed_cons_none hread]
  | some b => rw [keyed_cons_some hread,remaining_cons_lt hl]

theorem remaining_keyed_ge (hl : c ≤ l) (hread : read l = some b) :
    remaining (keyed read (l :: index)) c = (l,b) :: remaining (keyed read index) c := by
  rw [keyed_cons_some hread,remaining_cons_ge hl]

theorem mem_keyed : x ∈ keyed read index ↔ x.1 ∈ index ∧ read x.1 = some x.2 := by
  constructor
  · intro hx
    obtain ⟨l,hl,hread⟩ := List.mem_filterMap.1 hx
    obtain ⟨b,hb,rfl⟩ := Option.map_eq_some_iff.1 hread
    exact ⟨hl,hb⟩
  · rintro ⟨hl,hread⟩
    exact List.mem_filterMap.2 ⟨x.1,hl,by rw [hread]; rfl⟩

theorem keyed_keys (hread : ∀ x ∈ xs, read x.1 = some x.2) : keyed read (xs.map Prod.fst) = xs := by
  induction xs with
  | nil => rfl
  | cons x xs ih =>
    rw [List.map_cons,keyed_cons_some (hread x List.mem_cons_self),
      ih fun y hy => hread y (List.mem_cons_of_mem x hy)]

theorem keyed_keys_sublist (read : Nat → Option β) (index : List Nat) :
    ((keyed read index).map Prod.fst).Sublist index := by
  induction index with
  | nil => exact List.Sublist.refl _
  | cons l ls ih =>
    cases hread : read l with
    | none =>
      rw [keyed_cons_none hread]
      exact ih.cons l
    | some b =>
      rw [keyed_cons_some hread]
      exact ih.cons_cons l

theorem keyed_filter (p : Nat → Bool) (read : Nat → Option β) (index : List Nat) :
    keyed read (index.filter p) = (keyed read index).filter fun x => p x.1 := by
  induction index with
  | nil => rfl
  | cons l ls ih =>
    cases hread : read l with
    | none =>
      rw [keyed_cons_none hread,← ih,List.filter_cons]
      split_ifs
      · exact keyed_cons_none hread
      · rfl
    | some b =>
      rw [keyed_cons_some hread,List.filter_cons,List.filter_cons,← ih]
      split_ifs
      · exact keyed_cons_some hread
      · rfl

/-- Two readings of an index of which one extends the other list the same entries exactly when
they agree everywhere on it. -/
theorem filterMap_eq_iff {read read' : Nat → Option β}
    (hextends : ∀ l b, read l = some b → read' l = some b) (view : β → γ) :
    (index.filterMap read).map view = (index.filterMap read').map view ↔
      ∀ l ∈ index, read l = none → read' l = none := by
  constructor
  · intro heq
    have hlength := congrArg List.length heq
    rw [List.length_map,List.length_map,List.length_filterMap_eq_countP,
      List.length_filterMap_eq_countP] at hlength
    intro l hl hnone
    by_contra hsome
    obtain ⟨before,after,rfl⟩ := List.append_of_mem hl
    have hmono : ∀ ls : List Nat, (ls.countP fun l => (read l).isSome) ≤
        ls.countP fun l => (read' l).isSome := by
      intro ls
      apply List.countP_mono_left
      intro l _ hread
      obtain ⟨b,hb⟩ := Option.isSome_iff_exists.1 hread
      rw [hextends l b hb]
      rfl
    rw [List.countP_append,List.countP_append,List.countP_cons,List.countP_cons,
      if_neg (by simp [hnone]),if_pos (Option.isSome_iff_ne_none.2 hsome)] at hlength
    have hbefore := hmono before
    have hafter := hmono after
    omega
  · intro hagree
    congr 1
    apply List.filterMap_congr
    intro l hl
    cases hread : read l with
    | none => exact (hagree l hl hread).symm
    | some b => exact (hextends l b hread).symm

theorem length_keyed_le (read : Nat → Option β) (index : List Nat) :
    (keyed read index).length ≤ index.length := List.length_filterMap_le _ _

end Keyed

section Calls

variable {ε σ : Type} {call : Nat → Nat → Tx ε σ (List γ × Option Nat)} {I : σ → Prop} {s : σ}

/-- A client that follows the cursors of a call. -/
def followCalls (call : Nat → Nat → Tx ε σ (List γ × Option Nat)) (limits : Nat → Nat) :
    Nat → Nat → Nat → Tx ε σ (Option (List (List γ)))
  | 0, _, _ => pure none
  | fuel + 1, i, c => do
    let (entries, next) ← call c (limits i)
    match next with
    | none => pure (some [entries])
    | some c' => do
      let rest ← followCalls call limits fuel (i + 1) c'
      pure (rest.map (entries :: ·))

theorem followCalls_eq (hlimits : ∀ i, allowed (limits i))
    (hcall : ∀ s c n, I s → allowed n → ∃ s', call c n s = .ok (page c n) s' ∧ I s')
    (fuel i c : Nat) (hs : I s) :
    ∃ s', followCalls call limits fuel i c s = .ok (follow page limits fuel i c) s' ∧ I s' := by
  induction fuel generalizing i c s with
  | zero => exact ⟨s,rfl,hs⟩
  | succ fuel ih =>
    obtain ⟨s',hrun,hs'⟩ := hcall s c (limits i) hs (hlimits i)
    unfold followCalls follow
    rw [bind_of_ok hrun]
    cases page c (limits i) with
    | mk entries next =>
      cases next with
      | none => exact ⟨s',rfl,hs'⟩
      | some c' =>
        obtain ⟨t,hrest,ht⟩ := ih (i+1) c' hs'
        refine ⟨t,?_,ht⟩
        dsimp only
        rw [bind_of_ok hrest]
        rfl

/-- A client that follows the cursors from the start reads every entry of the index, in order. -/
theorem followCalls_flatten {view : β → γ} {read : Nat → Option β} {index : List Nat}
    (h : Pages view allowed (keyed read index) page)
    (hlimits : ∀ i, allowed (limits i) ∧ 0 < limits i)
    (hcall : ∀ s c n, I s → allowed n → ∃ s', call c n s = .ok (page c n) s' ∧ I s') (hs : I s) :
    ∃ pages s', followCalls call limits (index.length+1) 0 0 s = .ok (some pages) s' ∧ I s' ∧
      pages.flatten = (index.filterMap read).map view := by
  have hfuel : (remaining (keyed read index) 0).length < index.length+1 := by
    rw [remaining_zero]
    exact Nat.lt_succ_of_le (length_keyed_le _ _)
  obtain ⟨pages,hfollow,hflatten⟩ := h.follow_eq hlimits 0 hfuel
  obtain ⟨s',hrun,hs'⟩ := followCalls_eq (fun i => (hlimits i).1) hcall (index.length+1) 0 0 hs
  rw [hfollow] at hrun
  rw [remaining_zero,keyed_map_snd] at hflatten
  exact ⟨pages,s',hrun,hs',hflatten⟩

end Calls

end PriceOracle.Lib.Pagination
