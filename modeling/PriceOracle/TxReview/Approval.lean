import PriceOracle.TxReview.Canonical

/-! # One approval, one transaction

All payloads that pass with one approval are one payload. What the approval does not settle is what
the guard never checks: the ranges of the integer arguments, and members that the reader of the text
drops because their name comes again. -/

namespace PriceOracle.TxReview

open Model.TxReview Lib.JsonText

section Approvals

/-- A text has no object with two members of one name. An object that is handed in has none. -/
def PayloadData.once : PayloadData → Bool
  | .text json => (scan json).all Lib.JsonText.once
  | .object _ => true

def PayloadData.Kept : PayloadData → Prop
  | .text json => ∀ tree, scan json = some tree → build tree = tree
  | .object _ => True

/-- The numbers declared as integers are in the ranges of their types. -/
def PayloadData.ranged : PayloadData → Bool
  | .text json => (loads json).all rangedPayload
  | .object payload => rangedPayload payload

variable {hexdigest : String → String} {fromisoformat : String → Option Timestamp}
variable {data data₁ data₂ : PayloadData} {approval : Json} {policy₁ policy₂ : ReviewPolicy}
variable {now₁ now₂ : Int} {approved₁ approved₂ : Approved} {payload : Payload}

theorem loadPayload_inRange (h : loadPayload data = .ok payload) :
    argumentsInRange payload = PayloadData.ranged data := by
  cases data with
  | object raw => exact normalise_inRange h
  | text json =>
    rw [loadPayload] at h
    rw [PayloadData.ranged]
    cases hread : loads json with
    | none =>
      rw [hread] at h
      cases h
    | some raw =>
      rw [hread] at h
      exact normalise_inRange h

theorem once_iff_kept (data : PayloadData) :
    PayloadData.once data = true ↔ PayloadData.Kept data := by
  cases data with
  | object raw => simp [PayloadData.once,PayloadData.Kept]
  | text json =>
    rw [PayloadData.once,PayloadData.Kept]
    cases scan json with
    | none => simp
    | some tree => simp [build_eq_iff]

/-- Two payloads that pass with one approval are the same transaction. That their integers are in
range and that their texts repeat no name holds exactly when it does of what is handed in. -/
theorem approved_iff (hhexdigest : Function.Injective hexdigest)
    (h₁ : verifyApproval hexdigest fromisoformat data₁ approval policy₁ now₁ = .ok approved₁)
    (h₂ : verifyApproval hexdigest fromisoformat data₂ approval policy₂ now₂ = .ok approved₂) :
    (approved₁.payload = approved₂.payload ∧
        (argumentsInRange approved₁.payload = true ∧ argumentsInRange approved₂.payload = true) ∧
        PayloadData.once data₁ = true ∧ PayloadData.once data₂ = true) ↔
      (PayloadData.ranged data₁ = true ∧ PayloadData.ranged data₂ = true) ∧
        PayloadData.Kept data₁ ∧ PayloadData.Kept data₂ := by
  obtain ⟨hload₁,hstored₁⟩ := verifyApproval_ok h₁
  obtain ⟨hload₂,hstored₂⟩ := verifyApproval_ok h₂
  have hsame : approved₁.payload = approved₂.payload :=
    digest_injective hhexdigest (Option.some.inj (hstored₁.symm.trans hstored₂))
  rw [loadPayload_inRange hload₁,loadPayload_inRange hload₂,once_iff_kept,once_iff_kept,
    and_iff_right hsame]

end Approvals

/-- A digest with its value at one text. Other texts keep themselves under a mark. -/
def digestAt (blob hex text : String) : String :=
  if text = blob then hex else String.ofList ('x' :: text.toList)

theorem digestAt_injective {blob hex : String} (hhex : hex.toList.head? ≠ some 'x') :
    Function.Injective (digestAt blob hex) := by
  intro a b h
  unfold digestAt at h
  split_ifs at h with ha hb hb
  · rw [ha,hb]
  · exact absurd (by rw [h,String.toList_ofList,List.head?_cons]) hhex
  · exact absurd (by rw [← h,String.toList_ofList,List.head?_cons]) hhex
  · exact String.toList_injective (List.cons.inj (String.ofList_injective h)).2

/-- The hours of one review. -/
def reviewTime (text : String) : Option Timestamp :=
  if text = "2026-01-01T00:00:00+00:00" then some ⟨1767225600000000, true⟩
  else if text = "2026-01-01T12:00:00+00:00" then some ⟨1767268800000000, true⟩
  else none

def pauseApproval (digest value : String) : Json :=
  .obj [("schema", .str approvalSchema), ("payload_sha256", .str digest),
    ("rendered_summary", .str ("PRIVILEGED TRANSACTION REVIEW\nnetwork: test\n" ++
      "source account: GA\nfee: 0 stroops\nsequence: 1\nmax time: none\noperations:\n" ++
      "  1. CA::pause(n=u32:" ++ value ++ ")")),
    ("requested_by", .str "ana"), ("reviewed_by", .arr [.str "ben", .str "cho"]),
    ("reviewed_at", .str "2026-01-01T00:00:00Z"), ("expires_at", .str "2026-01-01T12:00:00Z"),
    ("simulation", .obj [("payload_sha256", .str digest), ("network", .str "test"),
      ("success", .bool true), ("fee_stroops", .int 90)])]

def pausePayload : PayloadData :=
  .object (.obj [("network", .str "test"), ("source_account", .str "GA"), ("sequence", .int 1),
    ("operations", .arr [.obj [("contract_id", .str "CA"), ("function", .str "pause"),
      ("args", .obj [("n", .obj [("type", .str "u32"), ("value", .int 9)])])]])])

def pauseBlob : String := "[\"test\",\"GA\",0,1,0,[[\"CA\",\"pause\",[[\"n\",\"u32\",9]]]]]"

def pauseDigest : String := "6c5c5f21ea1d9c3fb5017da6b58fe9125065e5705e5dd3b707bf1a9b90aebb14"

theorem exists_of_isOk {ε α : Type} {x : Except ε α} (h : x.isOk = true) : ∃ a, x = .ok a := by
  cases x with
  | ok a => exact ⟨a,rfl⟩
  | error _ => cases h

theorem pause_approved : ∃ approved,
    verifyApproval (digestAt pauseBlob pauseDigest) reviewTime pausePayload
      (pauseApproval pauseDigest "9") .production 1767229200000000 = .ok approved ∧
    argumentsInRange approved.payload = true := by
  have hok : (verifyApproval (digestAt pauseBlob pauseDigest) reviewTime pausePayload
      (pauseApproval pauseDigest "9") .production 1767229200000000).isOk = true := by
    decide +kernel
  obtain ⟨approved,happroved⟩ := exists_of_isOk hok
  have hranged : PayloadData.ranged pausePayload = true := by decide +kernel
  have hdigest : Function.Injective (digestAt pauseBlob pauseDigest) :=
    digestAt_injective (by decide)
  obtain ⟨-,⟨hrange,-⟩,-⟩ :=
    (approved_iff hdigest happroved happroved).mpr ⟨⟨hranged,hranged⟩,trivial,trivial⟩
  exact ⟨approved,happroved,hrange⟩

/-- A text that names the network twice and passes a number beyond 32 bits. -/
def largePayload : PayloadData :=
  .text ("\x7b\"network\":\"main\",\"network\":\"test\",\"source_account\":\"GA\"," ++
    "\"sequence\":1,\"operations\":[\x7b\"contract_id\":\"CA\",\"function\":\"pause\"," ++
    "\"args\":\x7b\"n\":\x7b\"type\":\"u32\",\"value\":4294967296\x7d\x7d\x7d]\x7d")

def largeBlob : String :=
  "[\"test\",\"GA\",0,1,0,[[\"CA\",\"pause\",[[\"n\",\"u32\",4294967296]]]]]"

def largeDigest : String := "aac1e62fe7b53840336fde023e53b8f20e9da6c641b86e4adf3e84f60a30942b"

theorem large_number_approved : Function.Injective (digestAt largeBlob largeDigest) ∧
    ∃ approved, verifyApproval (digestAt largeBlob largeDigest) reviewTime largePayload
        (pauseApproval largeDigest "4294967296") .production 1767229200000000 = .ok approved ∧
      argumentsInRange approved.payload = false ∧ PayloadData.once largePayload = false := by
  have hok : (verifyApproval (digestAt largeBlob largeDigest) reviewTime largePayload
      (pauseApproval largeDigest "4294967296") .production 1767229200000000).isOk = true := by
    decide +kernel
  obtain ⟨approved,happroved⟩ := exists_of_isOk hok
  have hranged : PayloadData.ranged largePayload = false := by decide +kernel
  have honce : PayloadData.once largePayload = false := by decide +kernel
  refine ⟨digestAt_injective (by decide),approved,happroved,?_,honce⟩
  rw [loadPayload_inRange (verifyApproval_ok happroved).1,hranged]

end PriceOracle.TxReview
