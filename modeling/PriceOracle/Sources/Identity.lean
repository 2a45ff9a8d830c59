import PriceOracle.Sources.Roster

/-! # The identities of the sources

A source that is onboarded owns its fingerprint, and nobody else does, until it is offboarded. A
removal leaves the record and the ownership behind. -/

namespace PriceOracle.Sources

open Lib.Transaction Lib.Footprint Lib.Run Model

namespace Roster

variable {r : Roster} {source new : Address} {record : SourceLifecycle}

theorem revoke_revokedAddress :
    (r.revoke source).revokedAddress = Function.update r.revokedAddress source true := by
  unfold Roster.revoke
  cases r.record source <;> rfl

theorem revoke_revokedIdentity (h : r.record source = some record) :
    (r.revoke source).revokedIdentity = Function.update r.revokedIdentity record.identity true := by
  unfold Roster.revoke
  rw [h]

/-- Records and owners match, every owner is a source, and what is revoked is not in use. -/
structure Orderly (r : Roster) : Prop where
  owned : ∀ a record, r.record a = some record → r.owner record.identity = some a
  owns : ∀ i a, r.owner i = some a → r.active a = some true ∧
    ∃ record, r.record a = some record ∧ record.identity = i
  unrevoked : ∀ a record, r.record a = some record → r.revokedIdentity record.identity = false
  barred : ∀ a, r.active a = some true → r.revokedAddress a = false

theorem Orderly.active (h : r.Orderly) {a : Address} (ha : r.record a = some record) :
    r.active a = some true :=
  (h.owns record.identity a (h.owned a record ha)).1

theorem Orderly.record_eq_none (h : r.Orderly) {a : Address} (ha : r.active a ≠ some true) :
    r.record a = none := by
  cases hrecord : r.record a with
  | none => rfl
  | some record => exact absurd (h.active hrecord) ha

theorem Orderly.enlist (h : r.Orderly) (hrevoked : r.revokedAddress source = false) :
    (r.enlist source).Orderly where
  owned := h.owned
  owns i a ha := by
    obtain ⟨hactive,hrecord⟩ := h.owns i a ha
    refine ⟨?_,hrecord⟩
    rw [enlist_active,Function.update_apply,hactive,ite_self]
  unrevoked := h.unrevoked
  barred a ha := by
    rw [enlist_active,Function.update_apply] at ha
    split_ifs at ha with hsource
    · rw [hsource]
      exact hrevoked
    · exact h.barred a ha

theorem Orderly.assign (h : r.Orderly) (hactive : r.active source = some true)
    (hnone : r.record source = none) (hfree : r.owner record.identity = none)
    (hrevoked : r.revokedIdentity record.identity = false) : (r.assign source record).Orderly where
  owned a rec ha := by
    rw [assign_record,Function.update_apply] at ha
    rw [assign_owner]
    split_ifs at ha with hsource
    · rw [Option.some.injEq] at ha
      rw [← ha,hsource,Function.update_self]
    · have howner := h.owned a rec ha
      have hne : rec.identity ≠ record.identity := by
        intro heq
        rw [heq,hfree] at howner
        cases howner
      rwa [Function.update_of_ne hne]
  owns i a ha := by
    rw [assign_owner,Function.update_apply] at ha
    rw [assign_record]
    split_ifs at ha with hi
    · rw [Option.some.injEq] at ha
      rw [← ha,Function.update_self]
      exact ⟨hactive,record,rfl,hi.symm⟩
    · obtain ⟨hactive',rec,hrec,hidentity⟩ := h.owns i a ha
      have hne : a ≠ source := by
        intro heq
        rw [heq,hnone] at hrec
        cases hrec
      rw [Function.update_of_ne hne]
      exact ⟨hactive',rec,hrec,hidentity⟩
  unrevoked a rec ha := by
    rw [assign_record,Function.update_apply] at ha
    split_ifs at ha with hsource
    · rw [Option.some.injEq] at ha
      rw [← ha]
      exact hrevoked
    · exact h.unrevoked a rec ha
  barred := h.barred

/-- A record may change as long as its identity stays. -/
theorem Orderly.amend (h : r.Orderly) (hold : r.record source = some record)
    {amended : SourceLifecycle} (hsame : amended.identity = record.identity) :
    Orderly { r with record := Function.update r.record source (some amended) } where
  owned a rec ha := by
    rcases stored_of_update ha with ⟨rfl,rfl⟩ | ha
    · rw [hsame]
      exact h.owned a record hold
    · exact h.owned a rec ha
  owns i a ha := by
    obtain ⟨hactive,rec,hrec,hidentity⟩ := h.owns i a ha
    refine ⟨hactive,?_⟩
    by_cases hsource : a = source
    · rw [hsource,hold,Option.some.injEq] at hrec
      rw [hsource]
      exact ⟨amended,Function.update_self _ _ _,by rw [hsame,hrec,hidentity]⟩
    · refine ⟨rec,?_,hidentity⟩
      change Function.update r.record source (some amended) a = some rec
      rwa [Function.update_of_ne hsource]
  unrevoked a rec ha := by
    rcases stored_of_update ha with ⟨rfl,rfl⟩ | ha
    · rw [hsame]
      exact h.unrevoked a record hold
    · exact h.unrevoked a rec ha
  barred := h.barred

/-- A source without a record leaves nothing behind. -/
theorem Orderly.delist (h : r.Orderly) (hnone : r.record source = none) :
    (r.delist source).Orderly where
  owned := h.owned
  owns i a ha := by
    obtain ⟨hactive,rec,hrec,hidentity⟩ := h.owns i a ha
    have hne : a ≠ source := by
      intro heq
      rw [heq,hnone] at hrec
      cases hrec
    refine ⟨?_,rec,hrec,hidentity⟩
    rw [delist_active,Function.update_of_ne hne]
    exact hactive
  unrevoked := h.unrevoked
  barred a ha := by
    rw [delist_active,Function.update_apply] at ha
    split_ifs at ha
    exact h.barred a ha

theorem Orderly.record_inj (h : r.Orderly) {a b : Address} {rec : SourceLifecycle}
    (ha : r.record a = some record) (hb : r.record b = some rec)
    (hidentity : rec.identity = record.identity) : b = a := by
  have hboth := h.owned b rec hb
  rw [hidentity,h.owned a record ha,Option.some.injEq] at hboth
  exact hboth.symm

/-- The record of a source goes with what it owned, and both with the source. -/
theorem Orderly.revoke (h : r.Orderly) (source : Address) :
    ((r.revoke source).delist source).Orderly := by
  unfold Roster.revoke
  cases hrecord : r.record source with
  | none =>
    have hsame : Function.update r.record source none = r.record :=
      Function.update_eq_self_iff.2 hrecord.symm
    have hrest := h.delist hrecord
    refine ⟨?_,?_,?_,fun a ha => ?_⟩
    · simpa only [delist_record,delist_owner,hsame] using hrest.owned
    · simpa only [delist_record,delist_owner,delist_active,hsame] using hrest.owns
    · simpa only [delist_record,delist_revokedIdentity,hsame] using hrest.unrevoked
    · have hne : a ≠ source := by
        rintro rfl
        simp at ha
      change Function.update r.revokedAddress source true a = false
      rw [Function.update_of_ne hne]
      exact hrest.barred a ha
  | some record =>
    have hother {a : Address} {rec : SourceLifecycle}
        (ha : Function.update r.record source none a = some rec) :
        a ≠ source ∧ r.record a = some rec ∧ rec.identity ≠ record.identity := by
      obtain ⟨hne,ha⟩ := stored_of_erase ha
      exact ⟨hne,ha,fun heq => hne (h.record_inj hrecord ha heq)⟩
    refine ⟨fun a rec ha => ?_,fun i a ha => ?_,fun a rec ha => ?_,fun a ha => ?_⟩
    · obtain ⟨-,ha,hidentity⟩ := hother ha
      change Function.update r.owner record.identity none rec.identity = some a
      rw [Function.update_of_ne hidentity]
      exact h.owned a rec ha
    · obtain ⟨hi,ha⟩ := stored_of_erase ha
      obtain ⟨hactive,rec,hrec,hidentity⟩ := h.owns i a ha
      have hne : a ≠ source := by
        rintro rfl
        rw [hrecord,Option.some.injEq] at hrec
        exact hi (by rw [← hidentity,hrec])
      change Function.update r.active source none a = some true ∧
        ∃ record, Function.update r.record source none a = some record ∧ record.identity = i
      rw [Function.update_of_ne hne,Function.update_of_ne hne]
      exact ⟨hactive,rec,hrec,hidentity⟩
    · obtain ⟨-,ha,hidentity⟩ := hother ha
      change Function.update r.revokedIdentity record.identity true rec.identity = false
      rw [Function.update_of_ne hidentity]
      exact h.unrevoked a rec ha
    · have hne : a ≠ source := by
        rintro rfl
        simp at ha
      change Function.update r.active source none a = some true at ha
      change Function.update r.revokedAddress source true a = false
      rw [Function.update_of_ne hne] at ha ⊢
      exact h.barred a ha

/-- The record and what it owns follow the source to its new address. -/
theorem Orderly.rotate (h : r.Orderly) (hold : r.active source = some true)
    (hnew : r.active new ≠ some true) (hrevoked : r.revokedAddress new = false) :
    (r.rotate source new).Orderly := by
  have hnone := h.record_eq_none hnew
  unfold Roster.rotate
  cases hrecord : r.record source with
  | none => exact (h.delist hrecord).enlist hrevoked
  | some record =>
    have hcases {a : Address} {rec : SourceLifecycle}
        (ha : Function.update (Function.update r.record source none) new (some record) a =
          some rec) :
        a = new ∧ rec = record ∨
          a ≠ new ∧ r.record a = some rec ∧ rec.identity ≠ record.identity := by
      by_cases hsame : a = new
      · rw [hsame,Function.update_self,Option.some.injEq] at ha
        exact .inl ⟨hsame,ha.symm⟩
      · rw [Function.update_of_ne hsame] at ha
        obtain ⟨hne,ha⟩ := stored_of_erase ha
        exact .inr ⟨hsame,ha,fun heq => hne (h.record_inj hrecord ha heq)⟩
    refine ⟨fun a rec ha => ?_,fun i a ha => ?_,fun a rec ha => ?_,fun a ha => ?_⟩
    · rw [enlist_owner,delist_owner,assign_owner]
      rcases hcases ha with ⟨rfl,rfl⟩ | ⟨-,ha,hidentity⟩
      · exact Function.update_self _ _ _
      · rw [Function.update_of_ne hidentity]
        exact h.owned a rec ha
    · rw [enlist_owner,delist_owner,assign_owner,Function.update_apply] at ha
      change Function.update (Function.update r.active source none) new (some true) a = some true ∧
        ∃ rec, Function.update (Function.update r.record source none) new (some record) a =
          some rec ∧ rec.identity = i
      split_ifs at ha with hi
      · rw [Option.some.injEq] at ha
        subst ha
        exact ⟨Function.update_self _ _ _,record,Function.update_self _ _ _,hi.symm⟩
      · obtain ⟨hactive,rec,hrec,hidentity⟩ := h.owns i a ha
        have hne : a ≠ source := by
          rintro rfl
          rw [hrecord,Option.some.injEq] at hrec
          exact hi (by rw [← hidentity,hrec])
        have hne' : a ≠ new := by
          rintro rfl
          rw [hnone] at hrec
          cases hrec
        rw [Function.update_of_ne hne',Function.update_of_ne hne,Function.update_of_ne hne',
          Function.update_of_ne hne]
        exact ⟨hactive,rec,hrec,hidentity⟩
    · rcases hcases ha with ⟨-,rfl⟩ | ⟨-,ha,-⟩
      · exact h.unrevoked source rec hrecord
      · exact h.unrevoked a rec ha
    · rw [enlist_active,Function.update_apply] at ha
      split_ifs at ha with hsame
      · rw [hsame]
        exact hrevoked
      · rw [delist_active,Function.update_apply] at ha
        split_ifs at ha
        exact h.barred a ha

/-- What a call may do to tombstones and graduations: it takes none of the former away, and whose
record is graduated either was so or graduates now. -/
structure Onward (r r' : Roster) (graduates : Address → SourceLifecycle → Prop) : Prop where
  address : ∀ a, r.revokedAddress a = true → r'.revokedAddress a = true
  identity : ∀ i, r.revokedIdentity i = true → r'.revokedIdentity i = true
  graduated : ∀ a record, r'.record a = some record → record.graduated = true →
    (∃ b old, r.record b = some old ∧ old.identity = record.identity ∧ old.graduated = true) ∨
      graduates a record

variable {graduates : Address → SourceLifecycle → Prop}

theorem onward_of_same {r' : Roster} (haddress : r'.revokedAddress = r.revokedAddress)
    (hidentity : r'.revokedIdentity = r.revokedIdentity)
    (hrecord : ∀ a record, r'.record a = some record → record.graduated = true →
      ∃ b, r.record b = some record) : Onward r r' graduates where
  address a ha := by rwa [haddress]
  identity i hi := by rwa [hidentity]
  graduated a record ha hgraduated := by
    obtain ⟨b,hb⟩ := hrecord a record ha hgraduated
    exact .inl ⟨b,record,hb,rfl,hgraduated⟩

theorem onward_assign (hfresh : record.graduated = false) :
    Onward r ((r.enlist source).assign source record) graduates := by
  refine onward_of_same rfl rfl fun a rec ha hgraduated => ?_
  rcases stored_of_update ha with ⟨-,rfl⟩ | ha
  · rw [hfresh] at hgraduated
    cases hgraduated
  · exact ⟨a,ha⟩

theorem onward_rotate : Onward r (r.rotate source new) graduates := by
  unfold Roster.rotate
  cases hrecord : r.record source with
  | none => exact onward_of_same rfl rfl fun a rec ha _ => ⟨a,ha⟩
  | some record =>
    refine onward_of_same rfl rfl fun a rec ha _ => ?_
    rcases stored_of_update ha with ⟨-,rfl⟩ | ha
    · exact ⟨source,hrecord⟩
    · exact ⟨a,(stored_of_erase ha).2⟩

theorem onward_revoke : Onward r ((r.revoke source).delist source) graduates := by
  have hgrow {α : Type} [DecidableEq α] {f : α → Bool} {i j : α} (h : f j = true) :
      Function.update f i true j = true := by
    rw [Function.update_apply,h,ite_self]
  unfold Roster.revoke
  cases hrecord : r.record source with
  | none =>
    exact ⟨fun a ha => hgrow ha,fun i hi => hi,
      fun a rec ha hgraduated => .inl ⟨a,rec,(stored_of_erase ha).2,rfl,hgraduated⟩⟩
  | some record =>
    exact ⟨fun a ha => hgrow ha,fun i hi => hgrow hi,
      fun a rec ha hgraduated => .inl ⟨a,rec,(stored_of_erase ha).2,rfl,hgraduated⟩⟩

end Roster

inductive IdentityCall
  | onboard (source : Address) (name : Text) (identity : Bytes)
  | graduate (source : Address)
  | offboard (source : Address) (evidenceAsset : Option Address)
  | removeSource (source : Address)
  | addSource (source : Address) (name : Text)
  | rotateSourceKey (source newAddress : Address)

def IdentityCall.body : IdentityCall → Contract Unit
  | onboard source name identity => Model.onboard source name identity
  | graduate source => Model.graduate source
  | offboard source evidenceAsset => Model.offboard source evidenceAsset
  | removeSource source => Model.removeSource source
  | addSource source name => Model.addSource source name
  | rotateSourceKey source newAddress => Model.rotateSourceKey source newAddress

structure IdentityTx where
  env : Env
  call : IdentityCall

def execIdentity (st : Store) (t : IdentityTx) : Store := invoke t.call.body t.env st

/-- No fingerprint is bound to two sources, sources with a record and owners of fingerprints are the
same, and nothing that was offboarded is registered. -/
structure Consistent (st : Store) : Prop where
  distinct : ∀ a b record record', st.isSource a = true → st.isSource b = true →
    st.getRecord a = some record → st.getRecord b = some record' →
      record.identity = record'.identity → a = b
  owned : ∀ a record, st.isSource a = true → st.getRecord a = some record →
    st.sources.identityOwner record.identity = some a
  owns : ∀ i a, st.sources.identityOwner i = some a → st.isSource a = true ∧
    ∃ record, st.getRecord a = some record ∧ record.identity = i
  unrevoked : ∀ a record, st.isSource a = true → st.getRecord a = some record →
    st.sources.revokedIdentity record.identity = false
  barred : ∀ a, st.isSource a = true → st.sources.revokedAddress a = false

/-- The probation of the record is over, and the bond of the source is posted. -/
def Eligible (env : Env) (st : Store) (source : Address) (record : SourceLifecycle) : Prop :=
  record.probationUntil ≤ env.timestamp ∧ 0 < st.getSourceDepositedBond source ∧
    st.getSourceBond ≤ st.getSourceDepositedBond source

/-- What is claimed of a step. -/
structure Kept (st : Store) (t : IdentityTx) : Prop where
  consistent : Consistent (execIdentity st t)
  onward : (roster st).Onward (roster (execIdentity st t)) (Eligible t.env st)

/-- No source that has a record is removed; it may be offboarded. -/
def Settles (st : Store) (t : IdentityTx) : Prop :=
  ∀ source, t.call = .removeSource source → failure t.call.body t.env st = none →
    (st.registry.srcActive source).isSome = true → st.getRecord source = none

section Steps

variable {st : Store} {t : IdentityTx}

theorem isSource_iff {a : Address} : st.isSource a = true ↔ (roster st).active a = some true := by
  change (st.registry.srcActive a).getD false = true ↔ st.registry.srcActive a = some true
  cases st.registry.srcActive a <;> simp

theorem consistent_of_orderly (h : (roster st).Orderly) : Consistent st where
  distinct a b record record' _ _ ha hb hidentity := by
    exact h.record_inj hb ha hidentity
  owned a record _ ha := h.owned a record ha
  owns i a ha := by
    rw [isSource_iff]
    exact h.owns i a ha
  unrevoked a record _ ha := h.unrevoked a record ha
  barred a ha := h.barred a (isSource_iff.1 ha)

/-- A step keeps the roster orderly and does what is claimed. -/
def Fine (st : Store) (t : IdentityTx) : Prop := (roster (execIdentity st t)).Orderly ∧ Kept st t

theorem fine_of_roster {r : Roster} (hr : roster (execIdentity st t) = r) (h : r.Orderly)
    (honward : (roster st).Onward r (Eligible t.env st)) : Fine st t := by
  rw [← hr] at h honward
  exact ⟨h,consistent_of_orderly h,honward⟩

theorem fine_of_same (h : (roster st).Orderly) (hsame : roster (execIdentity st t) = roster st) :
    Fine st t :=
  fine_of_roster hsame h (Roster.onward_of_same rfl rfl fun a _ ha _ => ⟨a,ha⟩)

theorem record_eq_none_of_kept {source : Address} (h : (roster st).Orderly)
    (hroster : roster (execIdentity st t) = (roster st).delist source) (hkept : Kept st t) :
    (roster st).record source = none := by
  cases hrecord : (roster st).record source with
  | none => rfl
  | some record =>
    have howner : (execIdentity st t).sources.identityOwner record.identity = some source := by
      change (roster (execIdentity st t)).owner record.identity = some source
      rw [hroster]
      exact h.owned source record hrecord
    have hactive := (hkept.consistent.owns record.identity source howner).1
    rw [isSource_iff,hroster,Roster.delist_active,Function.update_self] at hactive
    cases hactive

theorem execIdentity_fine (h : (roster st).Orderly) (hsettles : Settles st t) : Fine st t := by
  obtain ⟨env,call⟩ := t
  cases hrun : failure call.body env st with
  | some e => exact fine_of_same h (congrArg roster (invoke_of_failure hrun))
  | none =>
    cases call with
    | onboard source name identity =>
      obtain ⟨-,hidentity,howner,hrevoked,hnew,record,rfl,hfresh,hroster⟩ :=
        invoke_of_success (Q := fun st' => st.governed = false ∧
          (roster st).revokedIdentity identity = false ∧ (roster st).owner identity = none ∧
          (roster st).revokedAddress source = false ∧ ((roster st).active source).isSome = false ∧
          ∃ record : SourceLifecycle, record.identity = identity ∧ record.graduated = false ∧
            roster st' = ((roster st).enlist source).assign source record)
          hrun (onboard_roster (w := World.enter env st) source name identity)
      have hnone : (roster st).record source = none := by
        refine h.record_eq_none fun hactive => ?_
        rw [hactive] at hnew
        cases hnew
      refine fine_of_roster hroster ?_ (Roster.onward_assign hfresh)
      refine (h.enlist hrevoked).assign ?_ hnone howner hidentity
      rw [Roster.enlist_active,Function.update_self]
    | graduate source =>
      obtain ⟨record,hrecord,-,hprobation,hbond,hrequired,hroster⟩ :=
        invoke_of_success (Q := fun st' => ∃ record, (roster st).record source = some record ∧
          record.graduated = false ∧ record.probationUntil ≤ env.timestamp ∧
          0 < st.getSourceDepositedBond source ∧
          st.getSourceBond ≤ st.getSourceDepositedBond source ∧
          roster st' = { roster st with
            record := Function.update (roster st).record source
              (some { record with graduated := true }) })
          hrun (graduate_roster (w := World.enter env st) source)
      refine fine_of_roster hroster (h.amend hrecord rfl) ?_
      refine ⟨fun _ ha => ha,fun _ hi => hi,fun a rec ha hgraduated => ?_⟩
      rcases stored_of_update ha with ⟨rfl,rfl⟩ | ha
      · exact .inr ⟨hprobation,hbond,hrequired⟩
      · exact .inl ⟨a,rec,ha,rfl,hgraduated⟩
    | offboard source evidenceAsset =>
      obtain ⟨-,hroster⟩ := invoke_of_success (Q := fun st' => st.isSource source = true ∧
          roster st' = ((roster st).revoke source).delist source)
        hrun (offboard_roster (w := World.enter env st) source evidenceAsset)
      exact fine_of_roster hroster (h.revoke source) Roster.onward_revoke
    | removeSource source =>
      have hroster := invoke_of_success (Q := fun st' => roster st' =
          if (st.registry.srcActive source).isSome = true then (roster st).delist source
          else roster st) hrun (removeSource_roster (w := World.enter env st) source)
      split_ifs at hroster with hknown
      · have hnone := hsettles source rfl hrun hknown
        exact fine_of_roster hroster (h.delist hnone)
          (Roster.onward_of_same rfl rfl fun a _ ha _ => ⟨a,ha⟩)
      · exact fine_of_same h hroster
    | addSource source name =>
      obtain ⟨-,-,hrevoked,hroster⟩ := invoke_of_success (Q := fun st' => st.governed = false ∧
          (st.registry.srcActive source).isSome = false ∧
          st.sources.revokedAddress source = false ∧ roster st' = (roster st).enlist source)
        hrun (addSource_roster (w := World.enter env st) source name)
      refine fine_of_roster hroster (h.enlist hrevoked) ?_
      exact Roster.onward_of_same rfl rfl fun a _ ha _ => ⟨a,ha⟩
    | rotateSourceKey source newAddress =>
      obtain ⟨hsource,htaken,hrevoked,hroster⟩ := invoke_of_success (Q := fun st' =>
          st.isSource source = true ∧ st.isSource newAddress = false ∧
          (roster st).revokedAddress newAddress = false ∧
          roster st' = (roster st).rotate source newAddress)
        hrun (rotateSourceKey_roster (w := World.enter env st) source newAddress)
      refine fine_of_roster hroster ?_ Roster.onward_rotate
      refine h.rotate (isSource_iff.1 hsource) (fun hactive => ?_) hrevoked
      rw [isSource_iff.2 hactive] at htaken
      cases htaken

theorem settles_of_kept (h : (roster st).Orderly) (hkept : Kept st t) : Settles st t := by
  obtain ⟨env,call⟩ := t
  rintro source rfl hrun hknown
  have hroster := invoke_of_success (Q := fun st' => roster st' =
      if (st.registry.srcActive source).isSome = true then (roster st).delist source
      else roster st) hrun (removeSource_roster (w := World.enter env st) source)
  rw [if_pos hknown] at hroster
  exact record_eq_none_of_kept (t := ⟨env,.removeSource source⟩) h hroster hkept

theorem offboard_revokes {source : Address} {evidenceAsset : Option Address}
    (hcall : t.call = .offboard source evidenceAsset)
    (hsuccess : failure t.call.body t.env st = none) :
    (execIdentity st t).sources.revokedAddress source = true ∧
      ∀ record, st.getRecord source = some record →
        (execIdentity st t).sources.revokedIdentity record.identity = true := by
  obtain ⟨env,call⟩ := t
  obtain rfl : call = .offboard source evidenceAsset := hcall
  obtain ⟨-,hroster⟩ := invoke_of_success (Q := fun st' => st.isSource source = true ∧
      roster st' = ((roster st).revoke source).delist source)
    hsuccess (offboard_roster (w := World.enter env st) source evidenceAsset)
  change roster (execIdentity st _) = _ at hroster
  refine ⟨?_,fun record hrecord => ?_⟩
  · change (roster (execIdentity st _)).revokedAddress source = true
    rw [hroster,Roster.delist_revokedAddress,Roster.revoke_revokedAddress,Function.update_self]
  · change (roster (execIdentity st _)).revokedIdentity record.identity = true
    rw [hroster,Roster.delist_revokedIdentity,Roster.revoke_revokedIdentity hrecord,
      Function.update_self]

end Steps

/-- After a source is offboarded, neither it nor a source of its fingerprint is registered. -/
def StaysOut (st : Store) (ts : List IdentityTx) : Prop :=
  ∀ pre t mid post, ts = pre ++ t :: (mid ++ post) → ∀ source evidenceAsset,
    t.call = .offboard source evidenceAsset →
      failure t.call.body t.env (run execIdentity st pre) = none →
        let after := run execIdentity st (pre ++ t :: mid)
        after.isSource source = false ∧
          ∀ record, (run execIdentity st pre).getRecord source = some record →
            ∀ a rec, after.isSource a = true → after.getRecord a = some rec →
              rec.identity ≠ record.identity

theorem staysOut_of_kept {st : Store} {ts : List IdentityTx}
    (h : ∀ x ∈ steps execIdentity st ts, Kept x.1 x.2) : StaysOut st ts := by
  rintro pre t mid post rfl source evidenceAsset hcall hsuccess
  rw [steps_append,steps_cons,steps_append,List.forall_mem_append,List.forall_mem_cons,
    List.forall_mem_append] at h
  obtain ⟨-,hoff,hmid,-⟩ := h
  obtain ⟨haddress,hidentity⟩ := offboard_revokes hcall hsuccess
  have hrevoked := run_related (R := fun s s' : Store =>
      (∀ a, s.sources.revokedAddress a = true → s'.sources.revokedAddress a = true) ∧
      ∀ i, s.sources.revokedIdentity i = true → s'.sources.revokedIdentity i = true)
    (fun _ => ⟨fun _ h => h,fun _ h => h⟩)
    (fun _ _ _ h h' => ⟨fun a ha => h'.1 a (h.1 a ha),fun i hi => h'.2 i (h.2 i hi)⟩)
    (fun s u hkept => ⟨hkept.onward.address,hkept.onward.identity⟩) hmid
  have hconsistent := (steps_satisfy (I := Consistent) (P := fun _ _ => True)
    (fun s u _ hkept => ⟨trivial,hkept.consistent⟩) hoff.consistent hmid).2
  intro after
  have hafter : after = run execIdentity (execIdentity (run execIdentity st pre) t) mid := by
    rw [← run_cons,← run_append]
  rw [hafter]
  refine ⟨?_,fun record hrecord a rec hactive hrec heq => ?_⟩
  · cases hactive : Store.isSource _ source with
    | false => rfl
    | true =>
      have hbarred := hconsistent.barred source hactive
      rw [hrevoked.1 source haddress] at hbarred
      cases hbarred
  · have hunrevoked := hconsistent.unrevoked a rec hactive hrec
    rw [heq,hrevoked.2 _ (hidentity record hrecord)] at hunrevoked
    cases hunrevoked

/-- In a run that begins with an orderly roster, the bookkeeping of identities stays consistent and
what is offboarded stays out exactly if no source that has a record is removed without being
offboarded. -/
theorem identity_consistent_iff {st : Store} (ts : List IdentityTx) (h : (roster st).Orderly) :
    ((∀ x ∈ steps execIdentity st ts, Kept x.1 x.2) ∧ StaysOut st ts) ↔
      ∀ x ∈ steps execIdentity st ts, Settles x.1 x.2 := by
  have hiff : (∀ x ∈ steps execIdentity st ts, Kept x.1 x.2) ↔
      ∀ x ∈ steps execIdentity st ts, Settles x.1 x.2 := by
    refine steps_iff_while (I := fun s => (roster s).Orderly) (P := Kept) (C := Settles) ?_ ?_ h
    · intro t _ s hs hkept
      exact (execIdentity_fine hs (settles_of_kept hs hkept)).1
    · intro t _ s hs
      exact ⟨settles_of_kept hs,fun hsettles => (execIdentity_fine hs hsettles).2⟩
  rw [← hiff]
  exact and_iff_left_of_imp staysOut_of_kept

/-- The bond that is required is 50, and sources 1 and 2 have posted it. -/
def onboardingStore : Store where
  flags := fun f => f == .sourceBond
  config := { admin := some 9, sourceBondAmount := some 50 }
  registry := { sourceBond := fun a => if a = 1 ∨ a = 2 then some 50 else none }

theorem onboardingStore_orderly : (roster onboardingStore).Orderly :=
  ⟨nofun,nofun,nofun,nofun⟩

/-- A source is removed, and its address onboarded again under another fingerprint. -/
def strayRun : List IdentityTx :=
  [⟨.concrete 100 5 [9], .onboard 1 [65] [1]⟩,
    ⟨.concrete 101 6 [9], .removeSource 1⟩,
    ⟨.concrete 102 7 [9], .onboard 1 [65] [2]⟩]

/-- The first fingerprint is still owned by address 1, first without a source, then beside the
fingerprint that its record has. -/
theorem identity_inconsistent :
    (roster onboardingStore).Orderly ∧
      (¬∀ x ∈ steps execIdentity onboardingStore strayRun, Kept x.1 x.2) ∧
      (run execIdentity onboardingStore (strayRun.take 2)).sources.identityOwner [1] = some 1 ∧
      (run execIdentity onboardingStore (strayRun.take 2)).isSource 1 = false ∧
      (run execIdentity onboardingStore strayRun).sources.identityOwner [1] = some 1 ∧
      ((run execIdentity onboardingStore strayRun).getRecord 1).map SourceLifecycle.identity =
        some [2] := by
  refine ⟨onboardingStore_orderly,fun h => ?_,by decide +kernel,by decide +kernel,
    by decide +kernel,by decide +kernel⟩
  have hremoval := h (run execIdentity onboardingStore (strayRun.take 1),
    ⟨.concrete 101 6 [9],.removeSource 1⟩) (by simp [strayRun])
  have howner := (hremoval.consistent.owns [1] 1 (by decide +kernel)).1
  exact absurd howner (by decide +kernel)

/-- A source graduates, rotates its key and is offboarded. -/
def orderlyRun : List IdentityTx :=
  [⟨.concrete 100 5 [9], .onboard 1 [65] [1]⟩,
    ⟨.concrete 200 604805 [], .graduate 1⟩,
    ⟨.concrete 300 604806 [1, 3], .rotateSourceKey 1 3⟩,
    ⟨.concrete 400 604807 [9], .offboard 3 none⟩,
    ⟨.concrete 401 604808 [9], .addSource 3 [65]⟩,
    ⟨.concrete 402 604809 [9], .onboard 2 [66] [1]⟩]

theorem orderly_run :
    (((∀ x ∈ steps execIdentity onboardingStore orderlyRun, Kept x.1 x.2) ∧
      StaysOut onboardingStore orderlyRun) ↔
      ∀ x ∈ steps execIdentity onboardingStore orderlyRun, Settles x.1 x.2) ∧
      ((run execIdentity onboardingStore (orderlyRun.take 3)).getRecord 3).map
        SourceLifecycle.graduated = some true ∧
      (run execIdentity onboardingStore orderlyRun).isSource 3 = false ∧
      (run execIdentity onboardingStore orderlyRun).isSource 2 = false :=
  ⟨identity_consistent_iff orderlyRun onboardingStore_orderly,by decide +kernel,
    by decide +kernel,by decide +kernel⟩

end PriceOracle.Sources
