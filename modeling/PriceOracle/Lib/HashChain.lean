/-! # Hash chains

A record of a chain names the digest of its predecessor and carries a digest of its own. The digest
is recomputed from some of the fields only, so a chain that passes the check agrees with another in
these fields up to a point, and behind that point every digest is a new one. -/

namespace PriceOracle.Lib.HashChain

variable {ρ η δ : Type}

/-- Which fields of a record are hashed, and where its digests stand. -/
structure Scheme (ρ η δ : Type) where
  hashed : ρ → η
  previous : η → δ
  digest : η → δ
  current : ρ → δ

variable (S : Scheme ρ η δ) (start : δ)

/-- The digest that the record at place `i` has to name. -/
def before (chain : Nat → Option ρ) : Nat → Option δ
  | 0 => some start
  | i + 1 => (chain i).map S.current

/-- The record at place `i` names its predecessor and carries the digest of its fields. -/
def Linked (chain : Nat → Option ρ) (i : Nat) : Prop :=
  ∃ r, chain i = some r ∧ before S start chain i = some (S.previous (S.hashed r)) ∧
    S.current r = S.digest (S.hashed r)

def Intact (chain : Nat → Option ρ) (n : Nat) : Prop := ∀ i < n, Linked S start chain i

/-- The chains have the same hashed fields and digest at place `i`. -/
def Agree (c d : Nat → Option ρ) (i : Nat) : Prop :=
  ∃ r r', c i = some r ∧ d i = some r' ∧ S.hashed r' = S.hashed r ∧ S.current r' = S.current r

/-- The chains have different digests at place `i`. -/
def Fresh (c d : Nat → Option ρ) (i : Nat) : Prop :=
  ∀ r r', c i = some r → d i = some r' → S.current r' ≠ S.current r

/-- Equal digests at a place that both chains have checked come from equal fields. -/
def CollisionFree (c d : Nat → Option ρ) : Prop :=
  ∀ i r r', c i = some r → d i = some r' → Intact S start c (i + 1) → Intact S start d (i + 1) →
    S.digest (S.hashed r') = S.digest (S.hashed r) → S.hashed r' = S.hashed r

/-- Up to some place `d` has the fields of `c`; behind it the records of `d` are linked anew, under
digests that `c` does not have there. -/
def Forged (c d : Nat → Option ρ) (n m : Nat) : Prop :=
  ∃ k ≤ n, k ≤ m ∧ (∀ i < k, Agree S c d i) ∧
    ∀ i, k ≤ i → i < m → Linked S start d i ∧ (i < n → Fresh S c d i)

section Forks

variable {S start} {c d : Nat → Option ρ} {n m : Nat}

theorem Intact.mono (h : Intact S start c n) (hle : m ≤ n) : Intact S start c m :=
  fun i hi => h i (Nat.lt_of_lt_of_le hi hle)

theorem Linked.congr {i : Nat} (h : Linked S start c i) (hcd : ∀ j ≤ i, d j = c j) :
    Linked S start d i := by
  obtain ⟨r,hr,hbefore,hdigest⟩ := h
  refine ⟨r,(hcd i (Nat.le_refl i)).trans hr,?_,hdigest⟩
  rw [← hbefore]
  cases i with
  | zero => rfl
  | succ i => rw [before,before,hcd i i.le_succ]

/-- A record that names the end of a checked chain and carries its own digest extends it. -/
theorem Intact.extend (h : Intact S start c n) {r : ρ} (hcd : ∀ i < n, d i = c i)
    (hr : d n = some r) (hbefore : before S start c n = some (S.previous (S.hashed r)))
    (hdigest : S.current r = S.digest (S.hashed r)) : Intact S start d (n+1) := by
  intro i hi
  rcases Nat.lt_succ_iff_lt_or_eq.1 hi with hi | rfl
  · exact (h i hi).congr fun j hj => hcd j (Nat.lt_of_le_of_lt hj hi)
  · refine ⟨r,hr,?_,hdigest⟩
    rw [← hbefore]
    cases i with
    | zero => rfl
    | succ i => rw [before,before,hcd i i.lt_succ_self]

theorem before_eq_of_agree {i : Nat} (h : ∀ j < i, Agree S c d j) :
    before S start d i = before S start c i := by
  cases i with
  | zero => rfl
  | succ i =>
    obtain ⟨r,r',hc,hd,-,hcurrent⟩ := h i (Nat.lt_succ_self i)
    rw [before,before,hc,hd,Option.map_some,Option.map_some,hcurrent]

/-- Two checked chains agree up to some place and have different digests behind it. -/
theorem fork (hcoll : CollisionFree S start c d) (hc : Intact S start c n)
    (hd : Intact S start d n) :
    ∃ k ≤ n, (∀ i < k, Agree S c d i) ∧ ∀ i, k ≤ i → i < n → Fresh S c d i := by
  induction n with
  | zero => exact ⟨0,Nat.le_refl 0,by simp,by simp⟩
  | succ n ih =>
    obtain ⟨k,hk,hagree,hfresh⟩ := ih (hc.mono n.le_succ) (hd.mono n.le_succ)
    obtain ⟨r,hr,hbefore,hdigest⟩ := hc n n.lt_succ_self
    obtain ⟨r',hr',hbefore',hdigest'⟩ := hd n n.lt_succ_self
    have hhashed (hcurrent : S.current r' = S.current r) : S.hashed r' = S.hashed r :=
      hcoll n r r' hr hr' hc hd (hdigest'.symm.trans (hcurrent.trans hdigest))
    rcases Nat.eq_or_lt_of_le hk with rfl | hlt
    · by_cases hcurrent : S.current r' = S.current r
      · refine ⟨k+1,Nat.le_refl _,fun i hi => ?_,fun i hki hi => by omega⟩
        rcases Nat.lt_succ_iff_lt_or_eq.1 hi with hi | rfl
        · exact hagree i hi
        · exact ⟨r,r',hr,hr',hhashed hcurrent,hcurrent⟩
      · refine ⟨k,k.le_succ,hagree,fun i hki hi => ?_⟩
        obtain rfl : i = k := by omega
        intro x x' hx hx'
        rw [hr,Option.some.injEq] at hx
        rw [hr',Option.some.injEq] at hx'
        rwa [← hx,← hx']
    · refine ⟨k,Nat.le_trans hk n.le_succ,hagree,fun i hki hi => ?_⟩
      rcases Nat.lt_succ_iff_lt_or_eq.1 hi with hi | rfl
      · exact hfresh i hki hi
      · -- the predecessors have different digests, so the hashed fields differ here as well
        intro x x' hx hx' hcurrent
        rw [hr,Option.some.injEq] at hx
        rw [hr',Option.some.injEq] at hx'
        rw [← hx,← hx'] at hcurrent
        obtain ⟨j,rfl⟩ : ∃ j, i = j+1 := ⟨i - 1,by omega⟩
        rw [before,Option.map_eq_some_iff] at hbefore hbefore'
        obtain ⟨y,hy,hprevious⟩ := hbefore
        obtain ⟨y',hy',hprevious'⟩ := hbefore'
        refine hfresh j (by omega) (by omega) y y' hy hy' ?_
        rw [hprevious,hprevious',hhashed hcurrent]

/-- A chain passes the check next to a checked one exactly if it is forged from it. -/
theorem intact_iff_forged (hcoll : CollisionFree S start c d) (hc : Intact S start c n) :
    Intact S start d m ↔ Forged S start c d n m := by
  constructor
  · intro hd
    obtain ⟨k,hk,hagree,hfresh⟩ := fork hcoll (hc.mono (Nat.min_le_left n m))
      (hd.mono (Nat.min_le_right n m))
    refine ⟨k,by omega,by omega,hagree,fun i hki hi => ⟨hd i hi,fun hin => ?_⟩⟩
    exact hfresh i hki (by omega)
  · rintro ⟨k,hkn,hkm,hagree,hrest⟩ i hi
    rcases Nat.lt_or_ge i k with hik | hik
    · obtain ⟨r,hr,hbefore,hdigest⟩ := hc i (by omega)
      obtain ⟨x,r',hx,hr',hhashed,hcurrent⟩ := hagree i hik
      obtain rfl : r = x := Option.some.inj (hr.symm.trans hx)
      refine ⟨r',hr',?_,?_⟩
      · rw [before_eq_of_agree fun j hj => hagree j (Nat.lt_trans hj hik),hbefore,hhashed]
      · rw [hcurrent,hhashed,hdigest]
    · exact (hrest i hik hi).1

theorem agree_of_same_end (hcoll : CollisionFree S start c d) (hc : Intact S start c (n+1))
    (hd : Intact S start d (n+1)) {r r' : ρ} (hr : c n = some r) (hr' : d n = some r')
    (hend : S.current r' = S.current r) : ∀ i < n+1, Agree S c d i := by
  obtain ⟨k,hk,hagree,hfresh⟩ := fork hcoll hc hd
  rcases Nat.eq_or_lt_of_le hk with rfl | hlt
  · exact hagree
  · exact (hfresh n (Nat.le_of_lt_succ hlt) n.lt_succ_self r r' hr hr' hend).elim

end Forks

end PriceOracle.Lib.HashChain
