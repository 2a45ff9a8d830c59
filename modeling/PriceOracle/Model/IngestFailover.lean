import Mathlib.Data.Fintype.Basic
import Mathlib.Data.List.FinRange
import Mathlib.Data.Rat.Defs
import Mathlib.Algebra.Order.Ring.Unbundled.Rat

/-! # Multi-region ingest

The router sends a submission to a healthy region and moves on when one refuses it. The key is
entered into the replicated ledger before the call, and put in quarantine when the outcome is not
known. A region is known by its place in the list, as an object is by its identity. -/

namespace PriceOracle.Model.Ingest

inductive Health
  | healthy
  | degraded
  | unhealthy
  deriving DecidableEq, Repr

structure Region where
  name : String
  failureThreshold : Int
  cooldownSecs : Int
  consecutiveFailures : Int
  consecutiveSuccesses : Int
  inCooldownUntil : ℚ
  health : Health
  submissions : Int
  deriving DecidableEq

def Region.available (region : Region) : Bool := region.health != .unhealthy

/-- A region with the defaults of the class. -/
def Region.named (name : String) : Region where
  name := name
  failureThreshold := 3
  cooldownSecs := 60
  consecutiveFailures := 0
  consecutiveSuccesses := 0
  inCooldownUntil := 0
  health := .healthy
  submissions := 0

structure Submission where
  source : String
  asset : String
  ledger : Int
  price : Int
  deriving DecidableEq, Repr

/-- The idempotency key: 32 characters of the digest of source, asset and ledger. The price is no
part of it. -/
def Submission.key (hexdigest : String → String) (sub : Submission) : String :=
  let raw := sub.source ++ "|" ++ sub.asset ++ "|" ++ toString sub.ledger
  String.ofList ((hexdigest raw).toList.take 32)

/-- What a health check sends through the transport. -/
def probeSubmission : Submission := ⟨"__probe__", "__probe__", -1, 0⟩

structure FailoverEvent where
  kind : String
  fromRegion : Option String
  toRegion : Option String
  reason : String
  ledger : ℕ
  deriving DecidableEq, Repr

structure SubmitResult where
  submissionKey : String
  region : Option String
  accepted : Bool
  duplicate : Bool
  reason : String
  deriving DecidableEq, Repr

/-- How a call of the transport ends. Only an exception that is an `Exception` is caught by the
router: `interrupted` stands for the others (`KeyboardInterrupt`, `SystemExit`, a cancellation). -/
inductive Reply
  | returned
  | unreachable (message : String)
  | failed (message : String) (landed : Bool)
  | interrupted (landed : Bool)
  deriving DecidableEq, Repr

/-- Whether the call has written the submission. -/
def Reply.lands : Reply → Bool
  | .returned => true
  | .unreachable _ => false
  | .failed _ landed => landed
  | .interrupted landed => landed

def Reply.refuses : Reply → Bool
  | .unreachable _ => true
  | _ => false

def Reply.interrupts : Reply → Bool
  | .interrupted _ => true
  | _ => false

/-- What the surroundings do at one call: the transport's reply, and the clock once it is over. -/
structure Moment where
  reply : Reply
  clock : ℚ

/-- The marker of a key whose intent is recorded and whose outcome is not known. -/
def pending : String := "pending"

section Router

structure RegionRouter (n : ℕ) where
  regions : Fin n → Region
  ledger : String → Option String
  quarantined : Finset String
  duplicatesSuppressed : ℕ
  events : List FailoverEvent
  active : Option (Fin n)
  ledgerSeq : ℕ

variable {n : ℕ}

/-- A router over at least one region: the first is active. -/
def RegionRouter.init (regions : Fin (n + 1) → Region) : RegionRouter (n + 1) where
  regions := regions
  ledger := fun _ => none
  quarantined := ∅
  duplicatesSuppressed := 0
  events := []
  active := some 0
  ledgerSeq := 0

def RegionRouter.record (router : RegionRouter n) (kind : String) (src dst : Option (Fin n))
    (reason : String) : RegionRouter n :=
  { router with
    ledgerSeq := router.ledgerSeq + 1
    events := router.events ++
      [⟨kind, src.map fun i => (router.regions i).name, dst.map fun i => (router.regions i).name,
        reason, router.ledgerSeq + 1⟩] }

def RegionRouter.setRegion (router : RegionRouter n) (i : Fin n) (region : Region) :
    RegionRouter n :=
  { router with regions := Function.update router.regions i region }

/-- A failed attempt is counted, and degrades the region at the threshold. -/
def RegionRouter.noteFailure (router : RegionRouter n) (i : Fin n) (reason : String) (clock : ℚ) :
    RegionRouter n :=
  let region := router.regions i
  let failures := region.consecutiveFailures + 1
  let counted := { region with consecutiveFailures := failures, consecutiveSuccesses := 0 }
  if region.failureThreshold ≤ failures then
    let text := toString failures ++ " consecutive failures (" ++ reason ++ ")"
    let recorded := if region.health = .unhealthy then router
      else router.record "degraded" (some i) none text
    recorded.setRegion i
      { counted with health := .unhealthy, inCooldownUntil := clock + region.cooldownSecs }
  else router.setRegion i counted

/-- The healthy regions other than the active one and those to skip, in the order of the list. -/
def RegionRouter.candidates (router : RegionRouter n) (skip : Finset String) : List (Fin n) :=
  (List.finRange n).filter fun i =>
    (router.regions i).available && router.active != some i &&
      decide ((router.regions i).name ∉ skip)

def RegionRouter.failover (router : RegionRouter n) (reason : String) (skip : Finset String) :
    Option (Fin n) × RegionRouter n :=
  match router.candidates skip with
  | [] => (none, { router.record "unavailable" router.active none reason with active := none })
  | i :: _ =>
    (some i, { router.record "failover" router.active (some i) reason with active := some i })

def RegionRouter.activeName (router : RegionRouter n) : String :=
  match router.active with
  | some i => (router.regions i).name
  | none => "none"

/-- The active region if it is healthy and not to be skipped. -/
def RegionRouter.usable (router : RegionRouter n) (skip : Finset String) : Option (Fin n) :=
  router.active.filter fun i =>
    (router.regions i).available && decide ((router.regions i).name ∉ skip)

/-- The region to send to. Where none is healthy the active one stays as it was. -/
def RegionRouter.ensureActive (router : RegionRouter n) (skip : Finset String) :
    Option (Fin n) × RegionRouter n :=
  match router.usable skip with
  | some i => (some i, router)
  | none =>
    let reason := "active region " ++ router.activeName ++ " unusable"
    match ({ router with active := none } : RegionRouter n).failover reason skip with
    | (some i, moved) => (some i, moved)
    | (none, moved) => (none, { moved with active := router.active })

end Router

section Calls

/-- One call of the transport. -/
structure Call (n : ℕ) where
  region : Fin n
  sub : Submission
  reply : Reply

/-- The router with every call that its transport has had. -/
structure Fleet (n : ℕ) where
  router : RegionRouter n
  calls : List (Call n)

variable {n : ℕ} (hexdigest : String → String)

def Fleet.init (regions : Fin (n + 1) → Region) : Fleet (n + 1) := ⟨.init regions, []⟩

def Fleet.call (w : Fleet n) (i : Fin n) (sub : Submission) (reply : Reply) : Fleet n :=
  { w with calls := w.calls ++ [⟨i, sub, reply⟩] }

/-- One health check. A region in its cooldown is not called. -/
def Fleet.probe (w : Fleet n) (i : Fin n) (now : ℚ) (moment : Moment) : Fleet n :=
  let region := w.router.regions i
  if now < region.inCooldownUntil then w
  else
    let called := w.call i probeSubmission moment.reply
    match moment.reply with
    | .returned =>
      { called with
        router := w.router.setRegion i
          { region with
            consecutiveFailures := 0
            consecutiveSuccesses := region.consecutiveSuccesses + 1
            health := .healthy } }
    | .unreachable _ | .failed _ _ =>
      { called with router := w.router.noteFailure i "probe failed" moment.clock }
    | .interrupted _ => called

/-- A call of `submit` returns, or an exception goes through it. -/
inductive Ended
  | returned (result : SubmitResult)
  | raised
  deriving DecidableEq, Repr

/-- A failed attempt in a region: the failure is noted and the active region left. -/
def RegionRouter.leave (router : RegionRouter n) (i : Fin n) (verb message : String) (clock : ℚ) :
    RegionRouter n :=
  ((router.noteFailure i ("submission " ++ verb ++ ": " ++ message) clock).failover
    ("submission to " ++ (router.regions i).name ++ " " ++ verb ++ ": " ++ message) ∅).2

def RegionRouter.setLedger (router : RegionRouter n) (key : String) (entry : Option String) :
    RegionRouter n :=
  { router with ledger := Function.update router.ledger key entry }

def RegionRouter.quarantine (router : RegionRouter n) (key : String) : RegionRouter n :=
  { router with quarantined := insert key router.quarantined }

def RegionRouter.accept (router : RegionRouter n) (key : String) (i : Fin n) : RegionRouter n :=
  let region := router.regions i
  (router.setRegion i { region with submissions := region.submissions + 1 }).setLedger key
    (some region.name)

/-- The loop of `submit`, after `k` attempts in the regions `tried`. It gives nothing when `fuel`
rounds are not enough. -/
def route (sub : Submission) (env : ℕ → Moment) :
    ℕ → ℕ → Finset String → Fleet n → Option (Ended × Fleet n)
  | 0, _, _, _ => none
  | fuel + 1, k, tried, w =>
    let key := sub.key hexdigest
    match w.router.ensureActive tried with
    | (none, router) =>
      some (.returned ⟨key, none, false, false, "no healthy region available"⟩,
        { w with router := router.setLedger key none })
    | (some i, router) =>
      let name := (router.regions i).name
      let called := ({ w with router := router } : Fleet n).call i sub (env k).reply
      match (env k).reply with
      | .unreachable message =>
        route sub env fuel (k + 1) (insert name tried)
          { called with router := router.leave i "refused" message (env k).clock }
      | .failed message _ =>
        some (.returned ⟨key, none, false, true,
            "ambiguous outcome in " ++ name ++ " (" ++ message ++ "); not retried"⟩,
          { called with router := (router.leave i "failed" message (env k).clock).quarantine key })
      | .interrupted _ => some (.raised, called)
      | .returned =>
        some (.returned ⟨key, some name, true, false, ""⟩,
          { called with router := router.accept key i })

def Fleet.suppress (w : Fleet n) : Fleet n :=
  { w with router := { w.router with duplicatesSuppressed := w.router.duplicatesSuppressed + 1 } }

/-- `submit`, with a bound on the rounds of its loop. -/
def Fleet.submit (sub : Submission) (env : ℕ → Moment) (fuel : ℕ) (w : Fleet n) :
    Option (Ended × Fleet n) :=
  let key := sub.key hexdigest
  if key ∈ w.router.quarantined then
    some (.returned ⟨key, none, false, true, "ambiguous outcome; awaiting reconciliation"⟩,
      w.suppress)
  else
    match w.router.ledger key with
    | some region =>
      some (.returned ⟨key, some region, true, true, "already recorded by an earlier attempt"⟩,
        w.suppress)
    | none =>
      route hexdigest sub env fuel 0 ∅ { w with router := w.router.setLedger key (some pending) }

end Calls

section Runs

/-- A call made on the router, with what its surroundings do meanwhile. -/
inductive Op (n : ℕ)
  | submit (sub : Submission) (env : ℕ → Moment)
  | probe (region : Fin n) (now : ℚ) (moment : Moment)

variable {n : ℕ} (hexdigest : String → String)

/-- A round for each region and one more are enough for `submit`. -/
def Fleet.step (w : Fleet n) : Op n → Fleet n
  | .submit sub env => ((w.submit hexdigest sub env (n + 1)).map Prod.snd).getD w
  | .probe region now moment => w.probe region now moment

end Runs

end PriceOracle.Model.Ingest
