import Mathlib.Algebra.Group.Nat.Defs
import Mathlib.Data.List.Basic

/-! # Merkle trees

A binary tree with data at its leaves is summed up by the digest of its root. A leaf is authenticated
by the digests of the siblings on its path, from which the digest of the root is computed again. As
long as no other message has the digest of a node of the tree, only the leaves of the tree can be
authenticated, and each with its own path only. -/

namespace PriceOracle.Lib.MerkleTree

variable {α β δ : Type}

inductive HashTree (α : Type) where
  | leaf (a : α)
  | node (l r : HashTree α)

/-- How the digests of leaves and of inner nodes are computed. -/
structure Hashing (α δ : Type) where
  leaf : α → δ
  node : δ → δ → δ

/-- A node one step up: the digest of the sibling, and whether the step was from the right child. -/
def Hashing.join (H : Hashing α δ) (fromRight : Bool) (current sibling : δ) : δ :=
  if fromRight then H.node sibling current else H.node current sibling

/-- The digest at the end of a path, from the steps of the path in the order from the root. -/
def Hashing.climb (H : Hashing α δ) (start : δ) : List (Bool × δ) → δ
  | [] => start
  | s :: steps => H.join s.1 (H.climb start steps) s.2

namespace HashTree

variable (H : Hashing α δ) {path : List Bool} {t : HashTree α} {a : α} {n : Nat}

def map (f : α → β) : HashTree α → HashTree β
  | leaf a => leaf (f a)
  | node l r => node (l.map f) (r.map f)

def height : HashTree α → Nat
  | leaf _ => 0
  | node l r => max l.height r.height + 1

def leaves : HashTree α → List α
  | leaf a => [a]
  | node l r => l.leaves ++ r.leaves

def root : HashTree α → δ
  | leaf a => H.leaf a
  | node l r => H.node l.root r.root

/-- The leaf at the end of a path; `true` is a step to the right. -/
def leafAt : HashTree α → List Bool → Option α
  | leaf a, [] => some a
  | node _ r, true :: path => r.leafAt path
  | node l _, false :: path => l.leafAt path
  | _, _ => none

/-- The digests beside a path, in the order from the root. -/
def siblings : HashTree α → List Bool → List δ
  | node l r, true :: path => l.root H :: r.siblings path
  | node l r, false :: path => r.root H :: l.siblings path
  | _, _ => []

theorem leafAt_map (f : α → β) (t : HashTree α) (path : List Bool) :
    (t.map f).leafAt path = (t.leafAt path).map f := by
  induction t generalizing path with
  | leaf a => cases path <;> rfl
  | node l r ihl ihr =>
    match path with
    | [] => rfl
    | true :: path => exact ihr path
    | false :: path => exact ihl path

theorem mem_leaves_iff : a ∈ t.leaves ↔ ∃ path, t.leafAt path = some a := by
  induction t with
  | leaf b =>
    constructor
    · intro h
      exact ⟨[],by simpa [leafAt,leaves,eq_comm] using h⟩
    · rintro ⟨path,h⟩
      cases path with
      | nil => simpa [leafAt,leaves,eq_comm] using h
      | cons b path => simp [leafAt] at h
  | node l r ihl ihr =>
    rw [leaves,List.mem_append,ihl,ihr]
    constructor
    · rintro (⟨path,h⟩ | ⟨path,h⟩)
      · exact ⟨false :: path,h⟩
      · exact ⟨true :: path,h⟩
    · rintro ⟨path,h⟩
      match path, h with
      | true :: path, h => exact .inr ⟨path,h⟩
      | false :: path, h => exact .inl ⟨path,h⟩

theorem length_leaves_le (t : HashTree α) : t.leaves.length ≤ 2 ^ t.height := by
  induction t with
  | leaf a => simp [leaves,height]
  | node l r ihl ihr =>
    have hl : 2 ^ l.height ≤ 2 ^ max l.height r.height :=
      Nat.pow_le_pow_right (by decide) (Nat.le_max_left _ _)
    have hr : 2 ^ r.height ≤ 2 ^ max l.height r.height :=
      Nat.pow_le_pow_right (by decide) (Nat.le_max_right _ _)
    rw [leaves,List.length_append,height,Nat.pow_succ]
    omega

theorem length_siblings (h : t.leafAt path = some a) :
    (t.siblings H path).length = path.length := by
  induction t generalizing path with
  | leaf b =>
    cases path with
    | nil => rfl
    | cons b path => simp [leafAt] at h
  | node l r ihl ihr =>
    match path, h with
    | true :: path, h => rw [siblings,List.length_cons,ihr h,List.length_cons]
    | false :: path, h => rw [siblings,List.length_cons,ihl h,List.length_cons]

/-- All leaves are at one depth. -/
def Perfect : Nat → HashTree α → Prop
  | 0, leaf _ => True
  | n + 1, node l r => l.Perfect n ∧ r.Perfect n
  | _, _ => False

/-- The perfect tree with one value at all its leaves. -/
def full (a : α) : Nat → HashTree α
  | 0 => leaf a
  | n + 1 => node (full a n) (full a n)

theorem Perfect.exists_leafAt (ht : t.Perfect n)
    (hpath : path.length = n) : ∃ a, t.leafAt path = some a := by
  induction t generalizing path n with
  | leaf a =>
    match n, path, ht with
    | 0, [], _ => exact ⟨a,rfl⟩
    | 0, b :: path, _ => simp at hpath
  | node l r ihl ihr =>
    match n, path, ht with
    | n+1, true :: path, ht => exact ihr ht.2 (Nat.succ.inj hpath)
    | n+1, false :: path, ht => exact ihl ht.1 (Nat.succ.inj hpath)

theorem Perfect.length_path (ht : t.Perfect n) (h : t.leafAt path = some a) : path.length = n := by
  induction t generalizing path n with
  | leaf b =>
    match n, path, ht, h with
    | 0, [], _, _ => rfl
  | node l r ihl ihr =>
    match n, path, ht, h with
    | n+1, true :: path, ht, h => rw [List.length_cons,ihr ht.2 h]
    | n+1, false :: path, ht, h => rw [List.length_cons,ihl ht.1 h]

theorem Perfect.eq_full (ht : t.Perfect n) (h : ∀ x ∈ t.leaves, x = a) : t = full a n := by
  induction t generalizing n with
  | leaf b =>
    match n, ht with
    | 0, _ => rw [h b (by simp [leaves]),full]
  | node l r ihl ihr =>
    match n, ht with
    | n+1, ht =>
      have hl := ihl ht.1 fun x hx => h x (List.mem_append_left _ hx)
      have hr := ihr ht.2 fun x hx => h x (List.mem_append_right _ hx)
      rw [full,hl,hr]

theorem map_full (f : α → β) (a : α) (n : Nat) : (full a n).map f = full (f a) n := by
  induction n with
  | zero => rfl
  | succ n ih => rw [full,map,ih,full]

theorem leafAt_full (a : α) (n : Nat) (path : List Bool) :
    (full a n).leafAt path = if path.length = n then some a else none := by
  induction n generalizing path with
  | zero => cases path <;> simp [full,leafAt]
  | succ n ih =>
    match path with
    | [] => simp [full,leafAt]
    | true :: path => simp [full,leafAt,ih]
    | false :: path => simp [full,leafAt,ih]

/-- The siblings in such a tree are the same on all paths. -/
theorem siblings_full (a : α) (n : Nat) (hpath : path.length = n) :
    (full a n).siblings H path = ((List.range n).map fun i => (full a i).root H).reverse := by
  induction n generalizing path with
  | zero =>
    rfl
  | succ n ih =>
    rw [List.range_succ,List.map_append,List.reverse_append]
    match path with
    | true :: path => simp [full,siblings,ih (Nat.succ.inj hpath)]
    | false :: path => simp [full,siblings,ih (Nat.succ.inj hpath)]

/-- No other leaf and no other node over digests has the digest of a node of the tree. -/
def Sealed (D : δ → Prop) : HashTree α → Prop
  | leaf a => (∀ b, H.leaf b = H.leaf a → b = a) ∧ ∀ x y, D x → D y → H.node x y ≠ H.leaf a
  | node l r =>
    (∀ b, H.leaf b ≠ H.node (l.root H) (r.root H)) ∧
    (∀ x y, D x → D y → H.node x y = H.node (l.root H) (r.root H) →
      x = l.root H ∧ y = r.root H) ∧
    l.Sealed D ∧ r.Sealed D

end HashTree

section Authentication

variable {H : Hashing α δ} {D : δ → Prop} {t : HashTree α}

theorem climb_digest (hleaf : ∀ a, D (H.leaf a)) (hnode : ∀ x y, D (H.node x y)) (a : α)
    (steps : List (Bool × δ)) : D (H.climb (H.leaf a) steps) := by
  cases steps with
  | nil => exact hleaf a
  | cons s steps =>
    unfold Hashing.climb Hashing.join
    split_ifs <;> exact hnode _ _

theorem climb_siblings {path : List Bool} {a : α} (h : t.leafAt path = some a) :
    H.climb (H.leaf a) (path.zip (t.siblings H path)) = t.root H := by
  induction t generalizing path with
  | leaf b =>
    cases path with
    | nil =>
      rw [Option.some.inj h]
      rfl
    | cons b path => simp [HashTree.leafAt] at h
  | node l r ihl ihr =>
    match path, h with
    | true :: path, h => simp [HashTree.siblings,Hashing.climb,Hashing.join,ihr h,HashTree.root]
    | false :: path, h => simp [HashTree.siblings,Hashing.climb,Hashing.join,ihl h,HashTree.root]

/-- The steps that lead from a leaf to the root of a sealed tree are those of a path of the tree: they
are peeled off from the root. -/
theorem climb_eq_root_iff (hleaf : ∀ a, D (H.leaf a)) (hnode : ∀ x y, D (H.node x y))
    (ht : t.Sealed H D) {a : α} {steps : List (Bool × δ)} (hsteps : ∀ s ∈ steps, D s.2) :
    H.climb (H.leaf a) steps = t.root H ↔
      t.leafAt (steps.map Prod.fst) = some a ∧
        t.siblings H (steps.map Prod.fst) = steps.map Prod.snd := by
  constructor
  · intro h
    induction t generalizing steps with
    | leaf b =>
      cases steps with
      | nil => exact ⟨congrArg some (ht.1 a h).symm,rfl⟩
      | cons s steps =>
        have hrest := climb_digest hleaf hnode a steps
        have hs := hsteps s List.mem_cons_self
        refine absurd h ?_
        unfold Hashing.climb Hashing.join
        split_ifs
        · exact ht.2 _ _ hs hrest
        · exact ht.2 _ _ hrest hs
    | node l r ihl ihr =>
      obtain ⟨hleaves,hnodes,hl,hr⟩ := ht
      cases steps with
      | nil => exact absurd h (hleaves a)
      | cons s steps =>
        have hrest := climb_digest hleaf hnode a steps
        have hs := hsteps s List.mem_cons_self
        have hothers (u : Bool × δ) (hu : u ∈ steps) : D u.2 := hsteps u (List.mem_cons_of_mem s hu)
        obtain ⟨fromRight,sibling⟩ := s
        cases fromRight with
        | true =>
          obtain ⟨hsibling,hbelow⟩ := hnodes _ _ hs hrest h
          obtain ⟨hfound,hpath⟩ := ihr hr hothers hbelow
          exact ⟨hfound,by rw [List.map_cons,List.map_cons,HashTree.siblings,hpath,hsibling]⟩
        | false =>
          obtain ⟨hbelow,hsibling⟩ := hnodes _ _ hrest hs h
          obtain ⟨hfound,hpath⟩ := ihl hl hothers hbelow
          exact ⟨hfound,by rw [List.map_cons,List.map_cons,HashTree.siblings,hpath,hsibling]⟩
  · rintro ⟨hfound,hpath⟩
    rw [← climb_siblings hfound,hpath]
    simp [List.zip_map']

end Authentication

end PriceOracle.Lib.MerkleTree
