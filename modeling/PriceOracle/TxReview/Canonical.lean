import PriceOracle.Model.TxReview
import Mathlib.Algebra.Order.Ring.Int

/-! # The canonical list determines the payload

No two payloads have one canonical list: the type names keep the values apart that would look alike.
So an approval, which stores a digest, covers one payload only. -/

namespace PriceOracle.TxReview

open Model.TxReview Lib.JsonText Lib.JsonDump

theorem IntType.name_injective : Function.Injective IntType.name := by
  intro a b h
  cases a <;> cases b <;> first | rfl | exact absurd h (by decide)

theorem TextType.name_injective : Function.Injective TextType.name := by
  intro a b h
  cases a <;> cases b <;> first | rfl | exact absurd h (by decide)

mutual

/-- A typed value is determined by the name of its type and its canonical value. -/
theorem Typed.ext_canon : ∀ a b : Typed, a.typeName = b.typeName → a.value = b.value → a = b
  | .int type n, b, hname, hvalue => by
    cases b with
    | int type' n' =>
      rw [IntType.name_injective hname,Value.int.inj hvalue]
    | _ => simp [Typed.value] at hvalue
  | .bool x, b, _, hvalue => by
    cases b with
    | bool y => rw [Value.bool.inj hvalue]
    | _ => simp [Typed.value] at hvalue
  | .text type x, b, hname, hvalue => by
    cases b with
    | text type' y => rw [TextType.name_injective hname,Value.str.inj hvalue]
    | _ => simp [Typed.value] at hvalue
  | .void, b, _, hvalue => by
    cases b with
    | void => rfl
    | _ => simp [Typed.value] at hvalue
  | .vec items, b, hname, hvalue => by
    cases b with
    | vec items' => rw [canonItems_inj items items' (Value.list.inj hvalue)]
    | map _ => simp [Typed.typeName] at hname
    | _ => simp [Typed.value] at hvalue
  | .map pairs, b, hname, hvalue => by
    cases b with
    | map pairs' => rw [canonPairs_inj pairs pairs' (Value.list.inj hvalue)]
    | vec _ => simp [Typed.typeName] at hname
    | _ => simp [Typed.value] at hvalue
termination_by structural a => a

theorem canonItems_inj : ∀ as bs : List Typed, canonItems as = canonItems bs → as = bs
  | [], bs, h => by
    cases bs with
    | nil => rfl
    | cons b bs => simp [canonItems] at h
  | a :: as, bs, h => by
    cases bs with
    | nil => simp [canonItems] at h
    | cons b bs =>
      simp only [canonItems,List.cons.injEq,Value.list.injEq,Value.str.injEq,and_true] at h
      rw [Typed.ext_canon a b h.1.1 h.1.2,canonItems_inj as bs h.2]
termination_by structural as => as

theorem canonPairs_inj : ∀ as bs : List (String × Typed), canonPairs as = canonPairs bs → as = bs
  | [], bs, h => by
    cases bs with
    | nil => rfl
    | cons b bs => simp [canonPairs] at h
  | (name,a) :: as, bs, h => by
    cases bs with
    | nil => simp [canonPairs] at h
    | cons b bs =>
      obtain ⟨name',b⟩ := b
      simp only [canonPairs,List.cons.injEq,Value.list.injEq,Value.str.injEq,and_true] at h
      rw [h.1.1,Typed.ext_canon a b h.1.2.1 h.1.2.2,canonPairs_inj as bs h.2]
termination_by structural as => as

end

theorem Operation.canonical_injective : Function.Injective Operation.canonical := by
  rintro ⟨contractId,function,args⟩ ⟨contractId',function',args'⟩ h
  simp only [Operation.canonical,Value.list.injEq,List.cons.injEq,Value.str.injEq,and_true] at h
  obtain ⟨rfl,rfl,hargs⟩ := h
  rw [canonPairs_inj args args' hargs]

theorem Payload.canonical_injective : Function.Injective Payload.canonical := by
  intro a b h
  cases a
  simp only [Payload.canonical,Value.list.injEq,List.cons.injEq,Value.str.injEq,
    Value.int.injEq,and_true] at h
  obtain ⟨rfl,rfl,rfl,rfl,rfl,hops⟩ := h
  rw [List.map_injective_iff.mpr Operation.canonical_injective hops]

theorem digest_injective {hexdigest : String → String} (h : Function.Injective hexdigest) :
    Function.Injective (Payload.digest hexdigest) :=
  (h.comp dumps_injective).comp Payload.canonical_injective

section Approvals

variable {hexdigest : String → String} {fromisoformat : String → Option Timestamp}
variable {data : PayloadData} {approval : Json}
variable {policy : ReviewPolicy} {now : Int} {approved : Approved}

/-- The digest that an approval stores. -/
def storedDigest (approval : Json) : Option String :=
  match approval with
  | .obj members =>
    match get? members "payload_sha256" with
    | some (.str stored) => some (lower stored)
    | _ => none
  | _ => none

theorem bind_ok {ε α β : Type} {x : Except ε α} {f : α → Except ε β} {b : β}
    (h : x >>= f = .ok b) : ∃ a, x = .ok a ∧ f a = .ok b := by
  cases x with
  | ok a => exact ⟨a,rfl,h⟩
  | error e => cases h

theorem liftPayload_ok {α : Type} {x : Normal α} {value : α} (h : liftPayload x = .ok value) :
    x = .ok value := by
  cases x with
  | ok y => exact congrArg Except.ok (Except.ok.inj h)
  | error e => cases h

theorem checkDigest_ok {members : List (String × Json)} {digest : String}
    (h : checkDigest members digest = .ok ()) : storedDigest (.obj members) = some digest := by
  unfold checkDigest at h
  dsimp only [storedDigest]
  cases hget : get? members "payload_sha256" with
  | none =>
    rw [hget] at h
    cases h
  | some stored =>
    rw [hget] at h
    cases stored with
    | str text =>
      dsimp only at h
      split_ifs at h with hempty hlower
      · cases h
      · cases h
      · exact congrArg some (not_not.mp hlower)
    | _ => cases h

/-- A verification that succeeds is one of the payload with the digest that is stored. -/
theorem verifyApproval_ok
    (h : verifyApproval hexdigest fromisoformat data approval policy now = .ok approved) :
    loadPayload data = .ok approved.payload ∧
      storedDigest approval = some (approved.payload.digest hexdigest) := by
  obtain ⟨payload,hpayload,h⟩ := bind_ok h
  cases approval with
  | obj members =>
    obtain ⟨_,-,h⟩ := bind_ok h
    obtain ⟨_,hdigest,h⟩ := bind_ok h
    obtain ⟨_,-,h⟩ := bind_ok h
    obtain ⟨_,-,h⟩ := bind_ok h
    obtain ⟨_,-,h⟩ := bind_ok h
    obtain ⟨_,-,h⟩ := bind_ok h
    obtain rfl := Except.ok.inj h
    exact ⟨liftPayload_ok hpayload,checkDigest_ok hdigest⟩
  | _ => cases h

end Approvals

end PriceOracle.TxReview

/-! ## Ranges of integer arguments

The normalisation checks only that an unsigned integer is not negative. -/

namespace PriceOracle.TxReview

open Model.TxReview Lib.JsonText Lib.PyText

/-- The values of a type of the host. -/
def holds : IntType → Int → Bool
  | .i128, n => -2 ^ 127 ≤ n && n < 2 ^ 127
  | .i64, n => -2 ^ 63 ≤ n && n < 2 ^ 63
  | .u32, n => 0 ≤ n && n < 2 ^ 32
  | .u64, n => 0 ≤ n && n < 2 ^ 64
  | .u128, n => 0 ≤ n && n < 2 ^ 128

mutual

/-- Every integer inside is in the range of its type. -/
def inRange : Typed → Bool
  | .int type n => holds type n
  | .vec items => inRangeItems items
  | .map pairs => inRangePairs pairs
  | .bool _ | .text _ _ | .void => true
termination_by structural typed => typed

def inRangeItems : List Typed → Bool
  | [] => true
  | item :: rest => inRange item && inRangeItems rest
termination_by structural items => items

def inRangePairs : List (String × Typed) → Bool
  | [] => true
  | (_, item) :: rest => inRange item && inRangePairs rest
termination_by structural pairs => pairs

end

def argumentsInRange (payload : Payload) : Bool :=
  payload.operations.all fun op => inRangePairs op.args

/-- The integer that a raw value stands for. -/
def rawInt : Json → Option Int
  | .int n => some n
  | .str text => readInt text
  | _ => none

def rangedScalar (inner : Json) (type : String) : Bool :=
  match IntType.named? type with
  | some type => (rawInt inner).all (holds type)
  | none => true

mutual

/-- Every number that a raw argument declares as an integer is in the range of its type. -/
def rangedTyped : Json → Bool
  | .obj members =>
    match get? members "type" with
    | some (.str type) => rangedValue members type
    | _ => true
  | .null | .bool _ | .int _ | .float _ | .str _ | .arr _ => true
termination_by structural raw => raw

def rangedValue : List (String × Json) → String → Bool
  | [], _ => true
  | (name, inner) :: rest, type =>
    if name = "value" then rangedInner inner type else rangedValue rest type
termination_by structural members => members

def rangedInner : Json → String → Bool
  | .arr items, type => if type = "vec" then rangedItems items else true
  | .obj members, type => if type = "map" then rangedMembers members else true
  | .null, type => rangedScalar .null type
  | .bool value, type => rangedScalar (.bool value) type
  | .int value, type => rangedScalar (.int value) type
  | .float literal, type => rangedScalar (.float literal) type
  | .str value, type => rangedScalar (.str value) type
termination_by structural inner => inner

def rangedItems : List Json → Bool
  | [] => true
  | item :: rest => rangedTyped item && rangedItems rest
termination_by structural items => items

def rangedMembers : List (String × Json) → Bool
  | [] => true
  | (_, item) :: rest => rangedTyped item && rangedMembers rest
termination_by structural members => members

end

def rangedOperation : Json → Bool
  | .obj members =>
    match (get? members "args").getD (.obj []) with
    | .obj args => rangedMembers args
    | _ => true
  | _ => true

def rangedPayload : Json → Bool
  | .obj members =>
    match get? members "operations" with
    | some (.arr raw) => raw.all rangedOperation
    | _ => true
  | _ => true

section Arguments

variable {raw inner : Json} {type field : String} {typed : Typed}

theorem inRangePairs_eq_all (pairs : List (String × Typed)) :
    inRangePairs pairs = pairs.all fun pair => inRange pair.2 := by
  induction pairs with
  | nil => rfl
  | cons pair rest ih => rw [inRangePairs,ih,List.all_cons]

theorem inRangePairs_byName (pairs : List (String × Typed)) :
    inRangePairs (byName pairs) = inRangePairs pairs := by
  rw [inRangePairs_eq_all,inRangePairs_eq_all]
  exact (List.perm_insertionSort _ pairs).all_eq

theorem argumentType_ok {members : List (String × Json)}
    (h : argumentType members field = .ok type) : get? members "type" = some (.str type) := by
  unfold argumentType at h
  split at h
  · cases h
  · cases hget : get? members "type" with
    | none =>
      rw [hget] at h
      cases h
    | some value =>
      rw [hget] at h
      cases value with
      | str name => rw [Except.ok.inj h]
      | _ => cases h

theorem integerOf_ok {type : IntType} {n : Int} (h : integerOf type inner field = .ok n) :
    rawInt inner = some n := by
  cases inner with
  | int m => exact congrArg some (Except.ok.inj h)
  | str text =>
    dsimp only [integerOf] at h
    cases hread : readInt text with
    | none =>
      rw [hread] at h
      cases h
    | some m =>
      rw [hread] at h
      rw [rawInt,hread,Except.ok.inj h]
  | _ => cases h

theorem normaliseInt_inRange {type : IntType} (h : normaliseInt type inner field = .ok typed) :
    inRange typed = (rawInt inner).all (holds type) := by
  obtain ⟨n,hn,h⟩ := bind_ok h
  rw [integerOf_ok hn,Option.all_some]
  split at h
  · cases h
  · rw [← Except.ok.inj h,inRange]

theorem normaliseText_inRange {type : TextType} (h : normaliseText type inner field = .ok typed) :
    inRange typed = true := by
  unfold normaliseText at h
  split at h
  all_goals
    split at h
    · cases h
    · first
        | (rw [← Except.ok.inj h,inRange])
        | cases h

theorem normaliseScalar_inRange (h : normaliseScalar inner type field = .ok typed) :
    inRange typed = rangedScalar inner type := by
  unfold normaliseScalar at h
  unfold rangedScalar
  cases hint : IntType.named? type with
  | some intType =>
    rw [hint] at h
    exact normaliseInt_inRange h
  | none =>
    rw [hint] at h
    cases htext : TextType.named? type with
    | some textType =>
      rw [htext] at h
      exact normaliseText_inRange h
    | none =>
      rw [htext] at h
      split_ifs at h
      · cases inner with
        | bool value => rw [← Except.ok.inj h,inRange]
        | _ => cases h
      · cases inner with
        | null => rw [← Except.ok.inj h,inRange]
        | _ => cases h

mutual

/-- Normalisation keeps the numbers, and so their being in range. -/
theorem normaliseTyped_inRange : ∀ (raw : Json) (field : String) (typed : Typed),
    normaliseTyped raw field = .ok typed → inRange typed = rangedTyped raw
  | .obj members, field, typed, h => by
    obtain ⟨type,htype,h⟩ := bind_ok h
    rw [rangedTyped,argumentType_ok htype]
    exact normaliseValue_inRange members type field typed h
  | .null, _, _, h => by cases h
  | .bool _, _, _, h => by cases h
  | .int _, _, _, h => by cases h
  | .float _, _, _, h => by cases h
  | .str _, _, _, h => by cases h
  | .arr _, _, _, h => by cases h
termination_by structural raw => raw

theorem normaliseValue_inRange : ∀ (members : List (String × Json)) (type field : String)
    (typed : Typed), normaliseValue members type field = .ok typed →
      inRange typed = rangedValue members type
  | [], _, _, _, h => by cases h
  | (name,inner) :: rest, type, field, typed, h => by
    rw [normaliseValue] at h
    rw [rangedValue]
    split_ifs at h ⊢
    · exact normaliseInner_inRange inner type field typed h
    · exact normaliseValue_inRange rest type field typed h
termination_by structural members => members

theorem normaliseInner_inRange : ∀ (inner : Json) (type field : String) (typed : Typed),
    normaliseInner inner type field = .ok typed → inRange typed = rangedInner inner type
  | .arr items, type, field, typed, h => by
    rw [normaliseInner] at h
    rw [rangedInner]
    split_ifs at h ⊢
    · obtain ⟨items',hitems,h⟩ := bind_ok h
      rw [← Except.ok.inj h,inRange]
      exact normaliseItems_inRange items field items' hitems
    · exact (normaliseScalar_inRange h).trans (by
        unfold rangedScalar
        split <;> rfl)
  | .obj members, type, field, typed, h => by
    rw [normaliseInner] at h
    rw [rangedInner]
    split_ifs at h ⊢
    · obtain ⟨members',hmembers,h⟩ := bind_ok h
      rw [← Except.ok.inj h,inRange,inRangePairs_byName]
      exact normaliseMembers_inRange members field members' hmembers
    · exact (normaliseScalar_inRange h).trans (by
        unfold rangedScalar
        split <;> rfl)
  | .null, _, _, _, h => normaliseScalar_inRange h
  | .bool _, _, _, _, h => normaliseScalar_inRange h
  | .int _, _, _, _, h => normaliseScalar_inRange h
  | .float _, _, _, _, h => normaliseScalar_inRange h
  | .str _, _, _, _, h => normaliseScalar_inRange h
termination_by structural inner => inner

theorem normaliseItems_inRange : ∀ (items : List Json) (field : String) (typed : List Typed),
    normaliseItems items field = .ok typed → inRangeItems typed = rangedItems items
  | [], _, _, h => by rw [← Except.ok.inj h,inRangeItems,rangedItems]
  | item :: rest, field, typed, h => by
    obtain ⟨item',hitem,h⟩ := bind_ok h
    obtain ⟨rest',hrest,h⟩ := bind_ok h
    rw [← Except.ok.inj h,inRangeItems,rangedItems,normaliseTyped_inRange item field item' hitem,
      normaliseItems_inRange rest field rest' hrest]
termination_by structural items => items

theorem normaliseMembers_inRange : ∀ (members : List (String × Json)) (field : String)
    (typed : List (String × Typed)), normaliseMembers members field = .ok typed →
      inRangePairs typed = rangedMembers members
  | [], _, _, h => by rw [← Except.ok.inj h,inRangePairs,rangedMembers]
  | (name,item) :: rest, field, typed, h => by
    obtain ⟨item',hitem,h⟩ := bind_ok h
    obtain ⟨rest',hrest,h⟩ := bind_ok h
    rw [← Except.ok.inj h,inRangePairs,rangedMembers,normaliseTyped_inRange item field item' hitem,
      normaliseMembers_inRange rest field rest' hrest]
termination_by structural members => members

end

theorem normaliseArgs_inRange {args : List (String × Json)} {typed : List (String × Typed)}
    (h : normaliseArgs args field = .ok typed) : inRangePairs typed = rangedMembers args := by
  induction args generalizing typed with
  | nil =>
    obtain rfl := Except.ok.inj h
    rfl
  | cons arg rest ih =>
    rw [normaliseArgs,List.mapM_cons] at h
    obtain ⟨arg',harg,h⟩ := bind_ok h
    obtain ⟨rest',hrest,h⟩ := bind_ok h
    obtain ⟨item,hitem,harg⟩ := bind_ok harg
    rw [← Except.ok.inj h,← Except.ok.inj harg,inRangePairs,rangedMembers,ih hrest,
      normaliseTyped_inRange arg.2 _ item hitem]

end Arguments

section Payloads

variable {raw payload : Json} {position : Nat}

theorem argumentsOf_ok {members args : List (String × Json)} {field : String}
    (h : argumentsOf members field = .ok args) :
    (get? members "args").getD (.obj []) = .obj args := by
  unfold argumentsOf at h
  cases hget : (get? members "args").getD (.obj []) with
  | obj args' =>
    rw [hget] at h
    rw [Except.ok.inj h]
  | _ =>
    rw [hget] at h
    cases h

theorem normaliseOperation_inRange {op : Operation} (h : normaliseOperation raw position = .ok op) :
    inRangePairs op.args = rangedOperation raw := by
  cases raw with
  | obj members =>
    obtain ⟨_,-,h⟩ := bind_ok h
    obtain ⟨_,-,h⟩ := bind_ok h
    obtain ⟨_,-,h⟩ := bind_ok h
    obtain ⟨_,-,h⟩ := bind_ok h
    obtain ⟨args,hargs,h⟩ := bind_ok h
    obtain ⟨_,-,h⟩ := bind_ok h
    obtain ⟨args',hnormal,h⟩ := bind_ok h
    rw [← Except.ok.inj h,inRangePairs_byName,normaliseArgs_inRange hnormal,rangedOperation,
      argumentsOf_ok hargs]
  | _ => cases h

theorem operationsOf_ok {members : List (String × Json)} {raw : List Json}
    (h : operationsOf members = .ok raw) : get? members "operations" = some (.arr raw) := by
  unfold operationsOf at h
  split at h
  · rename_i item rest hget
    split_ifs at h
    rw [hget,Except.ok.inj h]
  · cases h

theorem normaliseOperations_inRange {raw : List Json} {ops : List Operation}
    (h : (raw.zipIdx position).mapM (fun item => normaliseOperation item.1 item.2) = .ok ops) :
    (ops.all fun op => inRangePairs op.args) = raw.all rangedOperation := by
  induction raw generalizing ops position with
  | nil =>
    obtain rfl := Except.ok.inj h
    rfl
  | cons item rest ih =>
    rw [List.zipIdx_cons,List.mapM_cons] at h
    obtain ⟨op,hop,h⟩ := bind_ok h
    obtain ⟨rest',hrest,h⟩ := bind_ok h
    rw [← Except.ok.inj h,List.all_cons,List.all_cons,ih hrest,normaliseOperation_inRange hop]

theorem normalise_inRange {result : Payload} (h : normalise payload = .ok result) :
    argumentsInRange result = rangedPayload payload := by
  cases payload with
  | obj members =>
    obtain ⟨_,-,h⟩ := bind_ok h
    obtain ⟨_,-,h⟩ := bind_ok h
    obtain ⟨_,-,h⟩ := bind_ok h
    obtain ⟨_,-,h⟩ := bind_ok h
    obtain ⟨_,-,h⟩ := bind_ok h
    obtain ⟨_,-,h⟩ := bind_ok h
    obtain ⟨_,-,h⟩ := bind_ok h
    obtain ⟨raw,hraw,h⟩ := bind_ok h
    obtain ⟨ops,hops,h⟩ := bind_ok h
    rw [← Except.ok.inj h,argumentsInRange,rangedPayload,operationsOf_ok hraw]
    exact normaliseOperations_inRange hops
  | _ => cases h

end Payloads

end PriceOracle.TxReview
