import PriceOracle.CommitReveal.Effects
import Mathlib.Logic.Equiv.Basic

/-! # Commits and reveals

When a commit can be revealed, and what it binds its source to. -/

/-! ## The phases of a round

A commit is for the round that the commit window in force places around the current ledger, and a
round can be revealed once the window in force has passed. -/

namespace PriceOracle.CommitReveal

open Lib.Transaction Lib.MachineInt Lib.Run Model

/-- A source has revealed a price of `asset` for the round `roundLedger`. -/
def RevealedIn (st : Store) (txs : List CommitTx) (asset : Address) (roundLedger : Nat) : Prop :=
  ∃ x ∈ steps execCommit st txs, x.2.Succeeds x.1 ∧
    ∃ y ∈ x.2.call.reveals, y.2.asset = asset ∧ y.2.roundLedger = roundLedger

/-- No commit is accepted for an asset and a round that some source has revealed before. -/
def CommitsPrecedeReveals (st : Store) (txs : List CommitTx) : Prop :=
  ∀ pre t post, txs = pre ++ t :: post → ∀ source asset hash,
    t.call = .commitPrice source asset hash → t.Succeeds (run execCommit st pre) →
      ¬RevealedIn st pre asset ((run execCommit st pre).currentRoundLedger t.env)

/-- From ledger `ledger` on no commit is accepted for the round: it does not start at a multiple of
the window, or its commit phase is over. -/
def Shut (window roundLedger ledger : Nat) : Prop :=
  roundLedger % window ≠ 0 ∨ wrap32 (roundLedger + window) ≤ ledger

deriving instance Decidable for Shut

/-- A change of the commit window leaves every revealed round shut. -/
def KeepsRevealedShut (st : Store) (pre : List CommitTx) (t : CommitTx) : Prop :=
  ∀ window, t.call = .setCommitWindow window → t.Succeeds (run execCommit st pre) →
    ∀ asset roundLedger, RevealedIn st pre asset roundLedger →
      Shut window roundLedger t.env.sequence

theorem Shut.mono {window roundLedger ledger ledger' : Nat} (h : Shut window roundLedger ledger)
    (hle : ledger ≤ ledger') : Shut window roundLedger ledger' :=
  h.imp_right fun hover => hover.trans hle

theorem not_shut_of_committing {st : Store} {env : Env}
    (h : env.sequence < wrap32 (st.currentRoundLedger env + st.getCommitWindow)) :
    ¬Shut st.getCommitWindow (st.currentRoundLedger env) env.sequence := by
  rintro (hstart | hover)
  · unfold Store.currentRoundLedger at h hstart
    by_cases hw : st.getCommitWindow = 0
    · rw [if_pos hw,hw,Nat.add_zero] at h
      unfold wrap32 at h
      omega
    · rw [if_neg hw,Nat.mul_mod_left] at hstart
      exact hstart rfl
  · omega

section Runs

variable {st : Store} {t : CommitTx} {pre : List CommitTx} {asset : Address} {roundLedger : Nat}

theorem revealedIn_append_singleton : RevealedIn st (pre ++ [t]) asset roundLedger ↔
    RevealedIn st pre asset roundLedger ∨ t.Succeeds (run execCommit st pre) ∧
      ∃ y ∈ t.call.reveals, y.2.asset = asset ∧ y.2.roundLedger = roundLedger := by
  unfold RevealedIn
  simp only [steps_append,steps_cons,steps_nil,List.mem_append,List.mem_singleton]
  constructor
  · rintro ⟨x,hx | rfl,h⟩
    · exact .inl ⟨x,hx,h⟩
    · exact .inr h
  · rintro (⟨x,hx,h⟩ | h)
    · exact ⟨x,.inl hx,h⟩
    · exact ⟨_,.inr rfl,h⟩

theorem window_of_not_set {call : CommitRevealCall} (h : ∀ window, call ≠ .setCommitWindow window) :
    call.window st = st.getCommitWindow := by
  cases call with
  | setCommitWindow window => exact absurd rfl (h window)
  | _ => rfl

theorem execCommit_shut (hkeep : KeepsRevealedShut st pre t)
    (hshut : RevealedIn st pre asset roundLedger →
      Shut (run execCommit st pre).getCommitWindow roundLedger t.env.sequence)
    (h : RevealedIn st (pre ++ [t]) asset roundLedger) :
    Shut (execCommit (run execCommit st pre) t).getCommitWindow roundLedger t.env.sequence := by
  rw [revealedIn_append_singleton] at h
  by_cases hok : t.Succeeds (run execCommit st pre)
  · obtain ⟨w',heff,hstore,-⟩ := t.effect hok
    rw [← hstore,heff.window]
    by_cases hset : ∃ window, t.call = .setCommitWindow window
    · obtain ⟨window,hcall⟩ := hset
      rcases h with hbefore | ⟨-,y,hy,-⟩
      · rw [hcall]
        exact hkeep window hcall hok asset roundLedger hbefore
      · simp [hcall,CommitRevealCall.reveals] at hy
    · rw [window_of_not_set (not_exists.1 hset)]
      rcases h with hbefore | ⟨-,y,hy,-,rfl⟩
      · exact hshut hbefore
      · exact .inr (heff.opened y hy)
  · rw [execCommit_of_panic hok]
    rcases h with hbefore | ⟨hok',-⟩
    · exact hshut hbefore
    · exact absurd hok' hok

theorem revealed_shut (hledgers : pre.Pairwise fun t u => t.env.sequence ≤ u.env.sequence)
    (hkeep : ∀ as t bs, pre = as ++ t :: bs → KeepsRevealedShut st as t)
    (h : RevealedIn st pre asset roundLedger) {ledger : Nat}
    (hledger : ∀ t ∈ pre, t.env.sequence ≤ ledger) :
    Shut (run execCommit st pre).getCommitWindow roundLedger ledger := by
  induction pre using List.reverseRecOn generalizing ledger with
  | nil =>
    obtain ⟨x,hx,-⟩ := h
    cases hx
  | append_singleton pre t ih =>
    rw [List.pairwise_append] at hledgers
    rw [List.forall_mem_append,List.forall_mem_singleton] at hledger
    rw [run_append,run_cons,run_nil]
    have hlast : ∀ u ∈ pre, u.env.sequence ≤ t.env.sequence :=
      fun u hu => hledgers.2.2 u hu t (List.mem_singleton_self t)
    have hbefore (as : List CommitTx) (u : CommitTx) (bs : List CommitTx)
        (hsplit : pre = as ++ u :: bs) : KeepsRevealedShut st as u :=
      hkeep as u (bs ++ [t]) (by simp [hsplit])
    apply (execCommit_shut (hkeep pre t [] rfl) (fun hr => ?_) h).mono hledger.2
    exact ih hledgers.1 hbefore hr hlast

end Runs

/-- In every run of the protocol through ledgers that do not go back, no commit is accepted for a
round that has been revealed, as long as every change of the commit window leaves the revealed
rounds shut. -/
theorem commits_precede_reveals (st : Store) (txs : List CommitTx)
    (hledgers : txs.Pairwise fun t u => t.env.sequence ≤ u.env.sequence)
    (hkeep : ∀ pre t post, txs = pre ++ t :: post → KeepsRevealedShut st pre t) :
    CommitsPrecedeReveals st txs := by
  intro pre t post hsplit source asset hash hcall hok hrevealed
  rw [hsplit,List.pairwise_append] at hledgers
  obtain ⟨w',heff,-,-⟩ := t.effect hok
  apply not_shut_of_committing (heff.committed source asset hash hcall)
  apply revealed_shut hledgers.1 (fun as u bs h => ?_) hrevealed
  · exact fun u hu => hledgers.2.2 u hu t List.mem_cons_self
  · exact hkeep as u (bs ++ t :: post) (by simp [hsplit,h])

/-- The price `500` with salt `1`, revealed for round `20` of asset `10`. -/
def revealOf20 : Reveal := ⟨10, 500, [1], 20⟩

/-- Sources `7` and `8` under a commit window of `10` ledgers. -/
def windowStore : Store where
  config := { admin := some 9, minSources := some 2, commitWindow := some 10 }
  registry := { assetIndex := fun a => if a = 10 then some true else none
                srcActive := fun a => if a = 7 ∨ a = 8 then some true else none }

/-- Source `7` commits and reveals, and the administrator changes the commit window. -/
def revealedThenSet (window : Nat) : List CommitTx :=
  [⟨.concrete 25 5 [7], .commitPrice 7 10 (disclosed (.concrete 25 5 []) 7 revealOf20)⟩,
    ⟨.concrete 30 5 [7], .revealPrice 7 revealOf20⟩,
    ⟨.concrete 31 5 [9], .setCommitWindow window⟩]

def commitOf8 : CommitTx := ⟨.concrete 31 5 [8], .commitPrice 8 10 []⟩

/-- With a window of `20` the ledger `31` lies in the commit phase of the revealed round `20`. -/
theorem realigned_round_recommitted :
    ¬CommitsPrecedeReveals windowStore (revealedThenSet 20 ++ [commitOf8]) := by
  intro h
  apply h (revealedThenSet 20) commitOf8 [] rfl 8 10 [] rfl (by decide +kernel)
  refine ⟨_,List.mem_cons_of_mem _ List.mem_cons_self,by decide +kernel,?_⟩
  exact ⟨(7,revealOf20),List.mem_singleton_self _,rfl,by decide +kernel⟩

/-- A window of `15` ledgers places no round at ledger `20`. -/
theorem shut_round_not_recommitted :
    CommitsPrecedeReveals windowStore (revealedThenSet 15 ++ [commitOf8]) := by
  apply commits_precede_reveals windowStore (revealedThenSet 15 ++ [commitOf8])
  · decide +kernel
  · intro pre t post hsplit window hcall _ asset roundLedger hrevealed
    have ht : t ∈ revealedThenSet 15 ++ [commitOf8] := by simp [hsplit]
    have hround : roundLedger = 20 := by
      obtain ⟨x,hx,-,y,hy,-,rfl⟩ := hrevealed
      have hmem : x.2 ∈ revealedThenSet 15 ++ [commitOf8] := by
        rw [hsplit]
        exact List.mem_append_left _ (snd_mem_of_mem_steps hx)
      simp only [revealedThenSet,commitOf8,List.cons_append,List.nil_append,List.mem_cons,
        List.not_mem_nil,or_false] at hmem
      rcases hmem with hx | hx | hx | hx <;> simp [hx,CommitRevealCall.reveals] at hy
      rw [hy]
      rfl
    simp only [revealedThenSet,commitOf8,List.cons_append,List.nil_append,List.mem_cons,
      List.not_mem_nil,or_false] at ht
    rcases ht with rfl | rfl | rfl | rfl <;> cases hcall
    rw [hround]
    decide

end PriceOracle.CommitReveal

/-! ## What a commit binds

The preimage of a commit starts with the sixteen bytes of the price, so a hash without collisions
opens to one price only. -/

namespace PriceOracle.CommitReveal

open Lib.Transaction Lib.MachineInt Lib.Run Lib.Pledge Model

/-- The source of `k` has committed `hash` for its asset and round. -/
def CommittedIn (st : Store) (txs : List CommitTx) (k : CommitKey) (hash : Bytes) : Prop :=
  ∃ x ∈ steps execCommit st txs, x.2.Succeeds x.1 ∧ x.2.call = .commitPrice k.2.1 k.1 hash ∧
    x.1.currentRoundLedger x.2.env = k.2.2

/-- With some salt the price is what `hash` commits `source` to. -/
def OpensTo (env : Env) (source : Address) (roundLedger : Nat) (hash : Bytes) (price : Int) :
    Prop :=
  ∃ salt, computeCommitHash env source price salt roundLedger = hash

/-- The commits a call reveals or penalises. -/
def CommitRevealCall.uses : CommitRevealCall → List CommitKey
  | revealPrice source x => [commitKey source x]
  | revealPricesBatch source reveals => reveals.map (commitKey source)
  | slashExpiredCommits asset source roundLedger => [(asset, source, roundLedger)]
  | _ => []

/-- A penalty is due and takes from one bond what it credits to the treasury. -/
def MovesPenalty (credit : Int → Int → Int) (st : Store) (t : CommitTx) : Prop :=
  ∀ asset source roundLedger, t.call = .slashExpiredCommits asset source roundLedger →
    t.Succeeds st → st.revealEnd roundLedger ≤ t.env.sequence ∧ ∃ taken, 0 < taken ∧
      (∀ a, (execCommit st t).getSourceDepositedBond a =
        st.getSourceDepositedBond a - if a = source then taken else 0) ∧
      (execCommit st t).treasury.getD 0 = credit (st.treasury.getD 0) taken

/-- Over a run, a stored price is the only one its source committed to, and a commit is revealed or
penalised once. -/
structure CommitsBind (credit : Int → Int → Int) (st : Store) (txs : List CommitTx) : Prop where
  stored : ∀ x ∈ steps execCommit st txs, x.2.Succeeds x.1 →
    x.2.stores x.1 = x.2.call.reveals.map fun y => (y.2.asset, y.1, y.2.price)
  bound : ∀ pre t post, txs = pre ++ t :: post → t.Succeeds (run execCommit st pre) →
    ∀ y ∈ t.call.reveals, ∃ hash,
      pledged (run execCommit st pre) (commitKey y.1 y.2) = some hash ∧
      (pledged st (commitKey y.1 y.2) = some hash ∨
        CommittedIn st pre (commitKey y.1 y.2) hash) ∧
      OpensTo t.env y.1 y.2.roundLedger hash y.2.price ∧
      ∀ price, IsI128 price → OpensTo t.env y.1 y.2.roundLedger hash price → price = y.2.price
  once : ∀ x ∈ steps execCommit st txs, x.2.Succeeds x.1 → x.2.call.uses.Nodup
  renewed : ∀ pre t mid u post, txs = pre ++ t :: (mid ++ u :: post) →
    t.Succeeds (run execCommit st pre) → u.Succeeds (run execCommit st (pre ++ t :: mid)) →
    ∀ k ∈ t.call.uses, k ∈ u.call.uses →
      ∃ hash, CommittedIn (run execCommit st (pre ++ [t])) mid k hash
  penalties : ∀ x ∈ steps execCommit st txs, MovesPenalty credit x.1 x.2

/-- Bonds and treasury are signed 128-bit values. -/
structure MoneyTyped (st : Store) : Prop where
  bond : ∀ source, IsI128 (st.getSourceDepositedBond source)
  treasury : IsI128 (st.treasury.getD 0)

section Opening

variable {env : Env} {source : Address} {roundLedger : Nat} {hash : Bytes} {price price' : Int}

theorem price_of_hash (hsha : Function.Injective env.host.sha256) (hprice : IsI128 price)
    (hprice' : IsI128 price') (h : OpensTo env source roundLedger hash price)
    (h' : OpensTo env source roundLedger hash price') : price = price' := by
  obtain ⟨salt,hsalt⟩ := h
  obtain ⟨salt',hsalt'⟩ := h'
  have hpreimage := hsha (hsalt.trans hsalt'.symm)
  simp only [List.append_assoc] at hpreimage
  have hbytes := List.append_inj_left hpreimage (by rw [leBytes_length,leBytes_length])
  exact toU128_inj hprice hprice' (leBytes_inj (toU128_lt price) (toU128_lt price') hbytes)

end Opening

section Uses

variable {st : Store} {t u : CommitTx} {call : CommitRevealCall} {k : CommitKey}
  {hash : Bytes} {pre mid txs : List CommitTx}

/-- What a call uses it takes. -/
theorem taken_of_uses (env : Env) (st : Store) (h : k ∈ call.uses) : ∃ hash, .take k hash ∈ call.events env st := by
  cases call with
  | revealPrice source x =>
    rw [List.mem_singleton.1 h]
    exact ⟨_,List.mem_singleton_self _⟩
  | revealPricesBatch source reveals =>
    obtain ⟨x,hx,rfl⟩ := List.mem_map.1 h
    exact ⟨_,List.mem_map_of_mem hx⟩
  | slashExpiredCommits asset source roundLedger =>
    rw [List.mem_singleton.1 h]
    exact ⟨_,List.mem_singleton_self _⟩
  | _ => cases h

theorem not_placed_of_uses (env : Env) (st : Store) (h : k ∈ call.uses) (j : CommitKey)
    (hash : Bytes) : .place j hash ∉ call.events env st := by
  cases call with
  | revealPrice source x => simp [CommitRevealCall.events,opening]
  | revealPricesBatch source reveals => simp [CommitRevealCall.events,opening]
  | slashExpiredCommits asset source roundLedger => simp [CommitRevealCall.events]
  | _ => cases h

theorem committed_of_placed (h : .place k hash ∈ runEvents st txs) : CommittedIn st txs k hash := by
  obtain ⟨x,hx,hplace⟩ := List.mem_flatMap.1 h
  unfold CommitTx.events at hplace
  by_cases hok : x.2.Succeeds x.1
  · rw [if_pos hok] at hplace
    refine ⟨x,hx,hok,?_⟩
    cases hcall : x.2.call with
    | commitPrice source asset hash' =>
      rw [hcall] at hplace
      cases List.mem_singleton.1 hplace
      exact ⟨rfl,rfl⟩
    | _ => simp [hcall,CommitRevealCall.events,opening] at hplace
  · simp [hok] at hplace

theorem events_of_succeeds (h : t.Succeeds st) : t.events st = t.call.events t.env st := by
  unfold CommitTx.events
  rw [if_pos h]

/-- A call that uses a commit finds it open. -/
theorem pledged_of_uses (hok : t.Succeeds st) (h : .take k hash ∈ t.call.events t.env st)
    (huses : k ∈ t.call.uses) : pledged st k = some hash := by
  have hlawful := (execCommit_pledged st t).1
  rw [events_of_succeeds hok] at hlawful
  obtain ⟨as,bs,hsplit⟩ := List.append_of_mem h
  rw [hsplit] at hlawful
  rcases placed_of_taken hlawful with hopen | hplaced
  · exact hopen
  · refine absurd ?_ (not_placed_of_uses t.env st huses k hash)
    rw [hsplit]
    exact List.mem_append_left _ hplaced

theorem committed_of_pledged (h : pledged (run execCommit st pre) k = some hash) :
    pledged st k = some hash ∨ CommittedIn st pre k hash := by
  rw [(run_pledged st pre).2] at h
  exact (placed_of_open h).imp_right committed_of_placed

theorem closed_of_uses (hok : t.Succeeds st) (huses : k ∈ t.call.uses) :
    pledged (execCommit st t) k = none := by
  obtain ⟨hash,htaken⟩ := taken_of_uses t.env st huses
  rw [(execCommit_pledged st t).2,events_of_succeeds hok]
  exact closed_of_taken htaken (not_placed_of_uses t.env st huses k)

theorem committed_between (ht : t.Succeeds st)
    (hu : u.Succeeds (run execCommit (execCommit st t) mid))
    (hk : k ∈ t.call.uses) (hk' : k ∈ u.call.uses) :
    ∃ hash, CommittedIn (execCommit st t) mid k hash := by
  obtain ⟨hash,htaken⟩ := taken_of_uses u.env (run execCommit (execCommit st t) mid) hk'
  refine ⟨hash,(committed_of_pledged (pledged_of_uses hu htaken hk')).resolve_left ?_⟩
  simp [closed_of_uses ht hk]

theorem uses_nodup (hok : t.Succeeds st) : t.call.uses.Nodup := by
  have hlawful := (execCommit_pledged st t).1
  rw [events_of_succeeds hok] at hlawful
  cases hcall : t.call with
  | revealPricesBatch source reveals =>
    rw [hcall] at hlawful
    have htakes : Lawful (pledged st)
        (reveals.map fun x => .take (commitKey source x) (disclosed t.env source x)) := hlawful
    exact nodup_of_takes htakes
  | _ => simp [CommitRevealCall.uses]

end Uses

/-- The sum, saturating at the largest signed 128-bit value. -/
def capped (a b : Int) : Int := min (a + b) i128Max

section Money

variable {st : Store} {t : CommitTx} {bond amount balance : Int}

theorem satSub_slash (hbond : IsI128 bond) (hslash : 0 < min bond amount) :
    satSub bond (min bond amount) = bond - min bond amount := by
  unfold IsI128 i128Min i128Max at hbond
  unfold satSub saturate i128Min i128Max
  omega

theorem satAdd_credit (hbalance : IsI128 balance) (hpos : 0 < amount) :
    satAdd balance amount = capped balance amount := by
  unfold IsI128 at hbalance
  unfold satAdd saturate capped
  omega

/-- A penalty takes from the bond of its source what it credits. -/
theorem slash_bond {asset source : Address} {roundLedger : Nat} (hst : MoneyTyped st)
    (hcall : t.call = .slashExpiredCommits asset source roundLedger) (hok : t.Succeeds st) :
    st.revealEnd roundLedger ≤ t.env.sequence ∧ 0 < st.actualSlash source ∧
      (∀ a, (execCommit st t).getSourceDepositedBond a =
        st.getSourceDepositedBond a - if a = source then st.actualSlash source else 0) ∧
      (execCommit st t).treasury.getD 0 = capped (st.treasury.getD 0) (st.actualSlash source) := by
  obtain ⟨w',heff,hstore,-⟩ := t.effect hok
  have hmoney := heff.money
  rw [hcall,hstore] at hmoney
  obtain ⟨hdue,hpos,hbond,htreasury⟩ := hmoney
  refine ⟨hdue,hpos,?_,?_⟩
  · intro a
    unfold Store.getSourceDepositedBond
    rw [hbond]
    by_cases ha : a = source
    · subst ha
      rw [Function.update_self,if_pos rfl,Option.getD_some]
      exact satSub_slash (hst.bond a) hpos
    · rw [Function.update_of_ne ha,if_neg ha,Int.sub_zero]
  · rw [htreasury,Option.getD_some]
    exact satAdd_credit hst.treasury hpos

theorem execCommit_typed (hst : MoneyTyped st) : MoneyTyped (execCommit st t) := by
  by_cases hok : t.Succeeds st
  · by_cases hslash : ∃ asset source roundLedger,
        t.call = .slashExpiredCommits asset source roundLedger
    · obtain ⟨asset,source,roundLedger,hcall⟩ := hslash
      obtain ⟨-,hpos,hbond,htreasury⟩ := slash_bond hst hcall hok
      have hle : st.actualSlash source ≤ st.getSourceDepositedBond source := min_le_left _ _
      constructor
      · intro a
        have htyped := hst.bond a
        rw [hbond]
        unfold IsI128 i128Min at htyped ⊢
        by_cases ha : a = source
        · subst ha
          omega
        · rw [if_neg ha]
          omega
      · have htyped := hst.treasury
        rw [htreasury]
        unfold IsI128 i128Min i128Max at htyped ⊢
        unfold capped i128Max
        omega
    · obtain ⟨w',heff,hstore,-⟩ := t.effect hok
      have hmoney := heff.money
      rw [hstore] at hmoney
      have hsame : (execCommit st t).registry.sourceBond = st.registry.sourceBond ∧
          (execCommit st t).treasury = st.treasury := by
        cases hcall : t.call with
        | slashExpiredCommits asset source roundLedger =>
          exact absurd ⟨asset,source,roundLedger,hcall⟩ hslash
        | _ => rwa [hcall] at hmoney
      constructor
      · intro a
        unfold Store.getSourceDepositedBond
        rw [hsame.1]
        exact hst.bond a
      · rw [hsame.2]
        exact hst.treasury
  · rwa [execCommit_of_panic hok]

end Money

/-- If the hash has no collisions, then in every run of the protocol every price a reveal stores is
the only one its source committed to for the asset and the round, every commit is revealed or
penalised once, and a penalty takes from the bond what it adds to the treasury, up to the largest
balance. -/
theorem commits_bind (st : Store) (txs : List CommitTx) (hst : MoneyTyped st)
    (hsha : ∀ t ∈ txs, Function.Injective t.env.host.sha256)
    (hprices : ∀ t ∈ txs, ∀ y ∈ t.call.reveals, IsI128 y.2.price) :
    CommitsBind capped st txs where
  stored := by
    intro x _ hok
    obtain ⟨w',heff,-,hlog⟩ := x.2.effect hok
    rw [CommitTx.stores,← hlog]
    exact heff.stored
  bound := by
    intro pre t post hsplit hok y hy
    have ht : t ∈ txs := by simp [hsplit]
    have hevent : opening t.env y.1 y.2 ∈ t.call.events t.env (run execCommit st pre) ∧
        commitKey y.1 y.2 ∈ t.call.uses := by
      cases hcall : t.call with
      | revealPrice source x =>
        rw [hcall] at hy
        rw [List.mem_singleton.1 hy]
        exact ⟨List.mem_singleton_self _,List.mem_singleton_self _⟩
      | revealPricesBatch source reveals =>
        rw [hcall] at hy
        obtain ⟨x,hx,rfl⟩ := List.mem_map.1 hy
        exact ⟨List.mem_map_of_mem hx,List.mem_map_of_mem hx⟩
      | _ => simp [hcall,CommitRevealCall.reveals] at hy
    have hopen := pledged_of_uses hok hevent.1 hevent.2
    have hopens : OpensTo t.env y.1 y.2.roundLedger (disclosed t.env y.1 y.2) y.2.price :=
      ⟨y.2.salt,rfl⟩
    refine ⟨disclosed t.env y.1 y.2,hopen,committed_of_pledged hopen,hopens,?_⟩
    exact fun price hprice h => price_of_hash (hsha t ht) hprice (hprices t ht y hy) h hopens
  once := fun x _ hok => uses_nodup hok
  renewed := by
    intro pre t mid u post _ hok hok' k hk hk'
    rw [run_append,run_cons] at hok'
    rw [run_append,run_cons,run_nil]
    exact committed_between hok hok' hk hk'
  penalties := by
    have hkeep (s : Store) (t : CommitTx) (hs : MoneyTyped s) (_ : True) :
        MovesPenalty capped s t ∧ MoneyTyped (execCommit s t) := by
      refine ⟨?_,execCommit_typed hs⟩
      intro asset source roundLedger hcall hok
      obtain ⟨hdue,hpos,hbond,htreasury⟩ := slash_bond hs hcall hok
      exact ⟨hdue,s.actualSlash source,hpos,hbond,htreasury⟩
    exact (steps_satisfy (I := MoneyTyped) (C := fun _ _ => True) hkeep hst fun _ _ => trivial).1

/-- Source `7` has the largest bond and source `8` a bond of `5`; a penalty takes the whole bond. -/
def bondedStore : Store where
  config := { admin := some 9, minSources := some 2, commitWindow := some 10
              commitRevealSlashAmount := some i128Max }
  registry := { assetIndex := fun a => if a = 10 then some true else none
                srcActive := fun a => if a = 7 ∨ a = 8 then some true else none
                sourceBond := fun a =>
                  if a = 7 then some i128Max else if a = 8 then some 5 else none }

/-- Both sources commit and withhold their prices, and both are penalised. -/
def withheldRun : List CommitTx :=
  [⟨.concrete 25 5 [7], .commitPrice 7 10 []⟩, ⟨.concrete 25 5 [8], .commitPrice 8 10 []⟩,
    ⟨.concrete 60 5 [], .slashExpiredCommits 10 7 20⟩,
    ⟨.concrete 60 5 [], .slashExpiredCommits 10 8 20⟩]

/-- The second penalty is lost in a treasury that is full. -/
theorem full_treasury_loses_penalty : ¬CommitsBind (fun a b => a + b) bondedStore withheldRun := by
  intro h
  have hall := h.penalties
  simp only [withheldRun,steps_cons,steps_nil,List.forall_mem_cons] at hall
  obtain ⟨-,-,-,hlast,-⟩ := hall
  obtain ⟨-,taken,hpos,-,htreasury⟩ := hlast 10 8 20 rfl (by decide +kernel)
  have hbefore : (run execCommit bondedStore (withheldRun.take 3)).treasury.getD 0 = i128Max := by
    decide +kernel
  have hafter : (run execCommit bondedStore withheldRun).treasury.getD 0 = i128Max := by
    decide +kernel
  have hcredit := hafter.symm.trans (htreasury.trans (congrArg (fun x => x + taken) hbefore))
  omega

/-- The preimage of the price `500` with salt `1` that source `7` commits to for round `20`. -/
def preimageOf500 : Bytes := leBytes 16 500 ++ [1] ++ leBytes 4 20 ++ leBytes 32 7

def digestOf500 : Bytes :=
  [76, 214, 12, 196, 230, 243, 212, 85, 26, 98, 235, 176, 1, 163, 184, 87, 44, 181, 5, 28,
    76, 41, 180, 203, 52, 26, 85, 98, 44, 166, 39, 126]

/-- A hash without collisions that agrees with SHA-256 on `preimageOf500`. -/
def swapHost : Host := { checksumHost with sha256 := Equiv.swap preimageOf500 digestOf500 }

/-- Source `7` reveals what it committed, source `8` withholds its price and is penalised. -/
def revealedAndWithheld : List CommitTx :=
  [⟨⟨swapHost, 25, 5, [7].contains⟩, .commitPrice 7 10 digestOf500⟩,
    ⟨⟨swapHost, 25, 5, [8].contains⟩, .commitPrice 8 10 []⟩,
    ⟨⟨swapHost, 30, 5, [7].contains⟩, .revealPrice 7 ⟨10, 500, [1], 20⟩⟩,
    ⟨⟨swapHost, 60, 5, [].contains⟩, .slashExpiredCommits 10 8 20⟩]

theorem revealed_and_withheld_bind :
    (∀ x ∈ steps execCommit bondedStore revealedAndWithheld, x.2.Succeeds x.1) ∧
      CommitsBind capped bondedStore revealedAndWithheld := by
  refine ⟨by decide +kernel,commits_bind bondedStore revealedAndWithheld ?_ ?_ ?_⟩
  · constructor
    · intro source
      unfold Store.getSourceDepositedBond bondedStore IsI128
      dsimp only
      split_ifs <;> decide
    · unfold IsI128
      decide
  · intro t ht
    simp only [revealedAndWithheld,List.mem_cons,List.not_mem_nil,or_false] at ht
    rcases ht with rfl | rfl | rfl | rfl <;> exact (Equiv.swap _ _).injective
  · intro t ht
    simp only [revealedAndWithheld,List.mem_cons,List.not_mem_nil,or_false] at ht
    unfold IsI128
    rcases ht with rfl | rfl | rfl | rfl <;> decide

end PriceOracle.CommitReveal
