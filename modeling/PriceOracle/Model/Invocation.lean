import PriceOracle.Model.Host

/-! # Invocations

One invocation runs a contract function in a fresh world over the committed storage. A panic
commits nothing: storage stays as it was and the log of the call is empty. -/

namespace PriceOracle.Model

open Lib.Transaction

variable {α : Type}

/-- The world in which an invocation starts. -/
def World.enter (env : Env) (st : Store) : World := ⟨env, st, {}⟩

/-- The storage after an invocation. -/
def invoke (m : Contract α) (env : Env) (st : Store) : Store :=
  (commit m (World.enter env st)).store

/-- The effects of an invocation; none if it panics. -/
def effects (m : Contract α) (env : Env) (st : Store) : Log :=
  (commit m (World.enter env st)).log

/-- The error an invocation panics with, if it does. -/
def failure (m : Contract α) (env : Env) (st : Store) : Option ErrorCode :=
  match m (World.enter env st) with
  | .ok _ _ => none
  | .error e _ => some e

/-- A 32-byte checksum, for concrete runs of functions that hash. -/
def checksum (b : Bytes) : Bytes :=
  Lib.MachineInt.leBytes 32 (b.foldl (fun h x => (h * 257 + x.toNat + 1) % 2 ^ 256) 0)

/-- Balances of a token after a transfer; a transfer to oneself changes nothing. -/
def Balances.move (b : Balances) (token sender recipient : Address) (amount : Int) : Balances :=
  let paid := Function.update (b token) sender (b token sender - amount)
  Function.update b token (Function.update paid recipient (paid recipient + amount))

/-- The transfers of honest tokens. -/
def honestTransfer (token sender recipient : Address) (amount : Int) (b : Balances) :
    Option Balances :=
  if 0 ≤ amount ∧ amount ≤ b token sender ∧
      b.move token sender recipient amount token recipient ≤ Lib.MachineInt.i128Max then
    some (b.move token sender recipient amount)
  else none

/-- A host for concrete runs: every signature is accepted, and every token is honest. -/
def checksumHost : Host where
  sha256 := checksum
  toXdr
    | .address a => Lib.MachineInt.leBytes 32 a
    | .u32 n => Lib.MachineInt.leBytes 4 n
    | .u64 n => Lib.MachineInt.leBytes 8 n
    | .i128 x => Lib.MachineInt.leBytes 16 (Lib.MachineInt.toU128 x)
  ed25519Verify := fun _ _ _ => true
  networkId := []
  contractAddress := 0
  hasCode := fun _ => true
  addressString := Lib.MachineInt.leBytes 56
  transfer := honestTransfer
  allowance := fun _ _ _ => Lib.MachineInt.i128Max
  transferFrom := fun token _ => honestTransfer token

/-- A concrete invocation at ledger `sequence`, authorized by the listed addresses. -/
def Env.concrete (sequence timestamp : Nat) (signers : List Address) : Env :=
  ⟨checksumHost, sequence, timestamp, fun a => signers.contains a⟩

variable {m : Contract α} {env : Env} {st : Store}

theorem invoke_of_sat {P : Store → Prop} (hst : P st)
    (hm : Sat m (World.enter env st) fun _ w => P w.store) : P (invoke m env st) :=
  commit_of_sat (P := fun w : World => P w.store) hst hm

theorem invoke_of_failure {e : ErrorCode} (h : failure m env st = some e) :
    invoke m env st = st := by
  unfold failure at h
  unfold invoke commit
  cases hm : m (World.enter env st) with
  | ok a w => simp [hm] at h
  | error e' w => rfl

theorem invoke_of_success {Q : Store → Prop} (h : failure m env st = none)
    (hm : Sat m (World.enter env st) fun _ w => Q w.store) : Q (invoke m env st) := by
  unfold failure at h
  unfold invoke commit
  cases hrun : m (World.enter env st) with
  | ok a w => exact hm a w hrun
  | error e _ => simp [hrun] at h

theorem invoke_cases {Q : World → Prop} (hm : Sat m (World.enter env st) fun _ w => Q w) :
    failure m env st ≠ none ∧ invoke m env st = st ∧ effects m env st = {} ∨
      failure m env st = none ∧
        ∃ w, Q w ∧ w.store = invoke m env st ∧ w.log = effects m env st := by
  unfold failure invoke effects commit
  cases hrun : m (World.enter env st) with
  | ok a w => exact .inr ⟨rfl,w,hm a w hrun,rfl,rfl⟩
  | error e w => exact .inl ⟨by simp,rfl,rfl⟩

theorem invoke_discard (m : Contract α) :
    invoke (do let _ ← m; pure ()) env st = invoke m env st := by
  unfold invoke commit
  cases hrun : m (World.enter env st) with
  | ok a w =>
    rw [bind_of_ok hrun]
    rfl
  | error e w => simp [bind,EStateM.bind,hrun]

theorem failure_of_fails {e : ErrorCode} {E : ErrorCode → Prop} (h : failure m env st = some e)
    (hm : Fails m (World.enter env st) fun e _ => E e) : E e := by
  unfold failure at h
  cases hrun : m (World.enter env st) with
  | ok _ _ => simp [hrun] at h
  | error e' w =>
    simp only [hrun,Option.some.injEq] at h
    exact h ▸ hm e' w hrun

theorem succeeds_of_no_failure (hm : Fails m (World.enter env st) fun _ _ => False) :
    failure m env st = none := by
  cases hfail : failure m env st with
  | none => rfl
  | some e => exact (failure_of_fails (E := fun _ => False) hfail hm).elim

theorem failure_eq_none_iff :
    failure m env st = none ↔ ∃ a w, m (World.enter env st) = .ok a w := by
  unfold failure
  cases h : m (World.enter env st) with
  | ok a w => simp
  | error e w => simp

theorem invoke_view {T : List Region} (hm : Frame T m) {r : Region} (hr : r ∉ T) :
    r.view (commit m (World.enter env st)) = r.view (World.enter env st) :=
  commit_of_sat (P := fun w : World => r.view w = r.view (World.enter env st)) rfl
    ((hm _).mono fun _ _ hw => hw r hr)

end PriceOracle.Model
