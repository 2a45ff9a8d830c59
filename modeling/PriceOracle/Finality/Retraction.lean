import PriceOracle.Finality.Lifecycle

/-! # What a retraction prevents

A retraction settles the entry of one ledger. The retracted price becomes final again exactly
when its content can still be finalized under another ledger: from an aggregate that is still
stored, or from an entry that is still open. -/

namespace PriceOracle.Model

/-- What identifies an aggregate: its price, its time and the number of its sources. -/
def AggregatePrice.content (a : AggregatePrice) : Int × Nat × Nat :=
  (a.price, a.timestamp, a.numSources)

def PendingFinalityEntry.content (e : PendingFinalityEntry) : Int × Nat × Nat :=
  (e.price, e.timestamp, e.numSources)

def FinalizedPrice.content (p : FinalizedPrice) : Int × Nat × Nat :=
  (p.price, p.timestamp, p.numSources)

@[simp] theorem pendingEntry_content (current window : Nat) (hash : Bytes) (a : AggregatePrice) :
    (pendingEntry current window hash a).content = a.content := rfl

end PriceOracle.Model

namespace PriceOracle.Finality

open Model Lib.Transaction Lib.MachineInt Lib.Run

theorem requirePending_frame {T : List Region} (status : FinalityStatus) :
    Frame T (requirePending status) := by
  cases status with
  | pending => exact preserves_pure ()
  | finalized => exact preserves_abort _
  | retracted => exact preserves_abort _

theorem requireUnsettled_frame {T : List Region} (existing : Option PendingFinalityEntry) :
    Frame T (requireUnsettled existing) := by
  cases existing with
  | none => exact preserves_pure ()
  | some e => exact requirePending_frame e.status

theorem markPricePending_frame (asset : Address) :
    Frame [.finality] (Model.markPricePending asset) :=
  (checkRegisteredAsset_frame asset).bind fun _ => .lookup fun _ => .read fun _ => .read fun _ =>
    .read fun _ => (requireUnsettled_frame _).bind fun _ =>
    .read fun _ => (modifyFinality_frame _).bind fun _ =>
    (extendTtl_frame _ _).bind fun _ => extendTtl_frame _ _

theorem tryFinalizePrice_frame (asset : Address) (l : Nat) :
    Frame [.finality] (Model.tryFinalizePrice asset l) := by
  apply Preserves.lookup
  intro e
  apply (requirePending_frame _).bind
  intro _
  apply Preserves.read
  intro current
  by_cases hready : current < e.finalityLedger
  · rw [if_pos hready]
    exact preserves_pure _
  · rw [if_neg hready]
    exact (modifyFinality_frame _).bind fun _ => (extendTtl_frame _ _).bind fun _ => preserves_pure _

/-- The calls anyone can make. -/
def FinalityCall.Permissionless : FinalityCall → Prop
  | markPricePending _ => True
  | tryFinalizePrice _ _ => True
  | retractPrice _ _ => False
  | setFinalityLedgers _ => False

theorem FinalityCall.Permissionless.frame {call : FinalityCall} (h : call.Permissionless) :
    Frame [.finality] call.body := by
  cases call with
  | markPricePending asset => exact markPricePending_frame asset
  | tryFinalizePrice asset l => exact (tryFinalizePrice_frame asset l).bind fun _ => preserves_pure _
  | retractPrice asset l => exact h.elim
  | setFinalityLedgers ledgers => exact h.elim

/-- The step is permissionless and publishes no aggregate of the asset. -/
def Unpublished (asset : Address) (s : Store) (t : FinalityTx) : Prop :=
  match t.act with
  | .call call => call.Permissionless
  | .elsewhere rest =>
    rest.aggregate asset = s.aggregate asset ∧
      rest.isRegisteredAsset asset = s.isRegisteredAsset asset

/-- The step makes a price with this content final. -/
def Revives (asset : Address) (content : Int × Nat × Nat) (s : Store) (t : FinalityTx) : Prop :=
  ∃ p, (execFinality s t).finality.finalized asset = some p ∧ p.content = content ∧
    s.finality.finalized asset ≠ some p

/-- From ledger `n` on, no sequence of permissionless calls makes the content final. -/
def StaysOut (asset : Address) (content : Int × Nat × Nat) (n : Nat) (s : Store) : Prop :=
  ∀ us : List FinalityTx, us.Pairwise (fun t u => t.env.sequence ≤ u.env.sequence) →
    (∀ t ∈ us, n ≤ t.env.sequence ∧ t.env.sequence ≤ u32Max) →
    (∀ x ∈ steps execFinality s us, Unpublished asset x.1 x.2) →
    ∀ x ∈ steps execFinality s us, ¬Revives asset content x.1 x.2

/-- An entry of ledger `l` would come after every final price. -/
def Ahead (f : Model.Finality) (asset : Address) (l : Nat) : Prop :=
  ∀ p, f.finalized asset = some p → p.committedLedger < l

/-- The last ledger at which the host still grants a lifetime, and so the last to finalize at. -/
def lastGranted : Nat := u32Max - ledgerBump

theorem lastGranted_le : lastGranted ≤ u32Max := Nat.sub_le ..

/-- The stored aggregate has the content, and it can still be marked from ledger `n` on, at a
ledger that `usable` admits and with a deadline that can be met. -/
def AggregateOpen (asset : Address) (content : Int × Nat × Nat) (n : Nat) (usable : Nat → Prop)
    (s : Store) : Prop :=
  s.isRegisteredAsset asset = true ∧ (∃ a, s.aggregate asset = some a ∧ a.content = content) ∧
    ∃ l, n ≤ l ∧ Granted l s.getFinalityLedgers ∧
      wrap32 (l + s.getFinalityLedgers) ≤ lastGranted ∧ usable l ∧ Ahead s.finality asset l ∧
      ∀ e, s.finality.pending (asset, l) = some e → e.status = .pending

/-- A pending entry of a usable ledger has the content, comes after every final price, and can be
finalized from ledger `n` on. -/
def EntryOpen (asset : Address) (content : Int × Nat × Nat) (n : Nat) (usable : Nat → Prop)
    (s : Store) : Prop :=
  ∃ l e, s.finality.pending (asset, l) = some e ∧ e.status = .pending ∧ e.content = content ∧
    n ≤ lastGranted ∧ e.finalityLedger ≤ lastGranted ∧ usable l ∧ Ahead s.finality asset l

def Revivable (asset : Address) (content : Int × Nat × Nat) (n : Nat) (usable : Nat → Prop)
    (s : Store) : Prop :=
  AggregateOpen asset content n usable s ∨ EntryOpen asset content n usable s

def anyLedger : Nat → Prop := fun _ => True

section Steps

variable {asset : Address} {content : Int × Nat × Nat} {n : Nat} {usable : Nat → Prop} {s : Store}
  {t : FinalityTx}

/-- A step that publishes nothing leaves what a mark of the asset reads. -/
theorem Unpublished.reads (h : Unpublished asset s t) :
    (execFinality s t).isRegisteredAsset asset = s.isRegisteredAsset asset ∧
      (execFinality s t).aggregate asset = s.aggregate asset ∧
      (execFinality s t).getFinalityLedgers = s.getFinalityLedgers := by
  have hledgers : (execFinality s t).finality.ledgers = s.finality.ledgers := by
    rcases execFinality_cases s t with hf | ⟨call,hact,heff⟩
    · rw [hf]
    · unfold Unpublished at h
      rw [hact] at h
      cases call with
      | markPricePending a =>
        obtain ⟨_,_,_,_,hf⟩ := heff
        rw [hf]
        rfl
      | tryFinalizePrice a l =>
        obtain ⟨_,_,_,_,hf⟩ := heff
        rw [hf]
        split_ifs
        · rfl
        · rfl
      | retractPrice a l => exact h.elim
      | setFinalityLedgers ledgers => exact h.elim
  have hwindow : (execFinality s t).getFinalityLedgers = s.getFinalityLedgers := by
    unfold Store.getFinalityLedgers
    rw [hledgers]
  unfold Unpublished at h
  unfold execFinality at hwindow ⊢
  cases hact : t.act with
  | elsewhere rest =>
    rw [hact] at h hwindow
    exact ⟨h.2,h.1,hwindow⟩
  | call call =>
    rw [hact] at h hwindow
    have hview (r : Region) (hr : r ∉ [Region.finality]) :
        r.view (commit call.body (World.enter t.env s)) = r.view (World.enter t.env s) :=
      invoke_view h.frame hr
    have hreg := congrArg Prod.fst (hview .registry (by simp))
    have hagg := congrArg Prod.fst (hview .aggregates (by simp))
    exact ⟨congrFun hreg asset,congrFun hagg asset,hwindow⟩

theorem Ahead.of_step {l : Nat} (hs : Sound s.finality)
    (h : Ahead (execFinality s t).finality asset l) : Ahead s.finality asset l := by
  intro p hp
  obtain ⟨q,hq,hle⟩ := newest_step (t := t) hs hp
  exact Nat.lt_of_le_of_lt hle (h q hq)

theorem unsettled_of_step {l : Nat}
    (h : ∀ e, (execFinality s t).finality.pending (asset,l) = some e → e.status = .pending) :
    ∀ e, s.finality.pending (asset,l) = some e → e.status = .pending := by
  intro e he
  by_contra hsettled
  exact hsettled (h e (settled_step he hsettled))

theorem AggregateOpen.of_step (hs : Sound s.finality) (hopen : Unpublished asset s t)
    (h : AggregateOpen asset content n usable (execFinality s t)) :
    AggregateOpen asset content n usable s := by
  obtain ⟨hreg,hagg,l,hl,hlife,hdue,huse,hahead,hfree⟩ := h
  obtain ⟨hreg',hagg',hwindow⟩ := hopen.reads
  rw [hreg'] at hreg
  rw [hwindow] at hlife hdue
  rw [hagg'] at hagg
  exact ⟨hreg,hagg,l,hl,hlife,hdue,huse,hahead.of_step hs,unsettled_of_step hfree⟩

/-- No step that publishes nothing makes the content revivable. -/
theorem Revivable.of_step (hs : Sound s.finality) (hopen : Unpublished asset s t)
    (hn : n ≤ t.env.sequence) (h : Revivable asset content n usable (execFinality s t)) :
    Revivable asset content n usable s := by
  rcases h with h | ⟨l,e,he,hpending,hcontent,hlast,hdue,huse,hahead⟩
  · exact .inl (h.of_step hs hopen)
  · have hbefore : Ahead s.finality asset l := hahead.of_step hs
    rcases pending_step he hpending with hold | ⟨_,hseq,hmark,a,hash,hagg,hentry⟩
    · exact .inr ⟨l,e,hold,hpending,hcontent,hlast,hdue,huse,hbefore⟩
    · -- the entry was marked just now, from the stored aggregate
      rw [hentry,pendingEntry_content] at hcontent
      rw [hentry] at hdue
      obtain ⟨hreg,hfree,hlife⟩ := hmark
      rw [hseq] at hfree hn hlife
      refine .inl ⟨hreg,⟨a,hagg,hcontent⟩,l,hn,hlife,hdue,huse,hbefore,fun d hd => ?_⟩
      simpa [hd] using hfree

theorem Revives.entryOpen (hs : Sound s.finality) (hn : n ≤ t.env.sequence)
    (h : Revives asset content s t) : EntryOpen asset content n anyLedger s := by
  obtain ⟨p,hp,hcontent,hnew⟩ := h
  rcases execFinality_cases s t with hf | ⟨call,_,heff⟩
  · exact (hnew (by rw [← hf,hp])).elim
  · rcases heff.finalized_eq hs with hf | ⟨a,l,e,_,he,hpending,hready,hledger,hnewer,hfin,_⟩
    · exact (hnew (by rw [← hf,hp])).elim
    · by_cases ha : asset = a
      · subst ha
        rw [hfin,Function.update_self,Option.some.injEq] at hp
        subst hp
        have hlast : t.env.sequence ≤ lastGranted := Nat.le_sub_of_add_le hledger
        refine ⟨l,e,he,hpending,hcontent,hn.trans hlast,hready.trans hlast,trivial,fun q hq => ?_⟩
        have hle : q.committedLedger ≤ l := by
          simpa [Model.Finality.newerFinalized,hq] using hnewer
        have hne : q.committedLedger ≠ l := by
          intro hl
          obtain ⟨d,hd,hfinal⟩ := hs.finalized asset q hq
          rw [hl,he,Option.some.injEq] at hd
          rw [← hd,hpending] at hfinal
          cases hfinal
        omega
      · rw [hfin,Function.update_of_ne ha] at hp
        exact (hnew hp).elim

end Steps

section Runs

variable {asset : Address} {content : Int × Nat × Nat} {n : Nat} {s : Store}
  {e : PendingFinalityEntry} {l : Nat} {env : Env}

def atLedger (env : Env) (sequence : Nat) : Env := { env with sequence := sequence }

theorem promote_finalized {f : Model.Finality} {l m : Nat} (hahead : Ahead f asset l) :
    (f.promote asset l m e).finalized asset = some (e.promoted l m) := by
  have hnewer : f.newerFinalized asset l = false := by
    unfold Model.Finality.newerFinalized
    rw [Option.any_eq_false]
    intro p hp
    have hlt := hahead p hp
    rw [decide_eq_false_iff_not]
    omega
  simp [Model.Finality.promote,hnewer]

/-- Promoting an open entry at the last ledger makes its content final. -/
theorem revives_of_entry (env : Env) (he : s.finality.pending (asset,l) = some e)
    (hpending : e.status = .pending) (hdue : e.finalityLedger ≤ lastGranted)
    (hahead : Ahead s.finality asset l) :
    Revives asset e.content s ⟨atLedger env lastGranted,.call (.tryFinalizePrice asset l)⟩ := by
  have hgranted : (atLedger env lastGranted).sequence + ledgerBump ≤ u32Max :=
    (Nat.sub_add_cancel (by decide)).le
  obtain ⟨d,hd,_,_,hf⟩ := finalize_effect hgranted he hpending
  rw [he,Option.some.injEq] at hd
  subst hd
  have hready : ¬(atLedger env lastGranted).sequence < e.finalityLedger := Nat.not_lt.2 hdue
  rw [if_neg hready] at hf
  refine ⟨e.promoted l lastGranted,?_,rfl,fun hold => ?_⟩
  · unfold execFinality
    rw [hf]
    exact promote_finalized hahead
  · have hlt := hahead _ hold
    simp [PendingFinalityEntry.promoted] at hlt

theorem entry_of_mark {a : AggregatePrice} (env : Env)
    (hmark : Markable (atLedger env l) s asset) (ha : s.aggregate asset = some a)
    (hahead : Ahead s.finality asset l) :
    let s' := execFinality s ⟨atLedger env l,.call (.markPricePending asset)⟩
    ∃ e, s'.finality.pending (asset,l) = some e ∧ e.status = .pending ∧
      e.content = a.content ∧ e.finalityLedger = wrap32 (l + s.getFinalityLedgers) ∧
      Ahead s'.finality asset l := by
  obtain ⟨b,hash,_,hb,hf⟩ := mark_effect hmark ha
  rw [ha,Option.some.injEq] at hb
  subst hb
  have hexec : (execFinality s ⟨atLedger env l,.call (.markPricePending asset)⟩).finality =
      s.finality.place asset l (pendingEntry l s.getFinalityLedgers hash a) := hf
  dsimp only
  rw [hexec]
  exact ⟨_,Function.update_self ..,rfl,rfl,rfl,hahead⟩

/-- What can be revived is revived by at most two permissionless calls. -/
theorem Revivable.not_staysOut (env : Env) (h : Revivable asset content n anyLedger s) :
    ¬StaysOut asset content n s := by
  intro hout
  rcases h with ⟨hreg,⟨a,ha,rfl⟩,l,hl,hlife,hdue,_,hahead,hfree⟩ |
      ⟨l,e,he,hpending,rfl,hlast,hdue,_,hahead⟩
  · let mark : FinalityTx := ⟨atLedger env l,.call (.markPricePending asset)⟩
    let final : FinalityTx := ⟨atLedger env lastGranted,.call (.tryFinalizePrice asset l)⟩
    have hmark : Markable (atLedger env l) s asset := by
      refine ⟨hreg,?_,hlife⟩
      change ((s.finality.pending (asset,l)).all fun e => e.status = .pending) = true
      cases hp : s.finality.pending (asset,l) with
      | none => rfl
      | some e => simp [hfree e hp]
    have hmax : l ≤ lastGranted := Nat.le_sub_of_add_le hlife.2.2
    obtain ⟨e,he,hpending,hcontent,hdeadline,hahead'⟩ := entry_of_mark env hmark ha hahead
    have hrevives := revives_of_entry env he hpending (hdeadline ▸ hdue) hahead'
    rw [hcontent] at hrevives
    refine hout [mark,final] ?_ ?_ ?_ (execFinality s mark,final) ?_ hrevives
    · simp [mark,final,atLedger,hmax]
    · simp [mark,final,atLedger,hl,hl.trans hmax,lastGranted_le,hmax.trans lastGranted_le]
    · simp [mark,final,Unpublished,FinalityCall.Permissionless]
    · simp
  · let final : FinalityTx := ⟨atLedger env lastGranted,.call (.tryFinalizePrice asset l)⟩
    refine hout [final] ?_ ?_ ?_ (s,final) ?_ (revives_of_entry env he hpending hdue hahead)
    · simp
    · simp [final,atLedger,hlast,lastGranted_le]
    · simp [final,Unpublished,FinalityCall.Permissionless]
    · simp

theorem staysOut_of_not_revivable (hs : Sound s.finality)
    (h : ¬Revivable asset content n anyLedger s) : StaysOut asset content n s := by
  intro us _ hledgers hopen
  have hstep (u : Store) (t : FinalityTx)
      (hu : Sound u.finality ∧ ¬Revivable asset content n anyLedger u)
      (ht : Unpublished asset u t ∧ n ≤ t.env.sequence) :
      ¬Revives asset content u t ∧ Sound (execFinality u t).finality ∧
        ¬Revivable asset content n anyLedger (execFinality u t) :=
    ⟨fun hr => hu.2 (.inr (hr.entryOpen hu.1 ht.2)),execFinality_sound hu.1,
      fun hr => hu.2 (hr.of_step hu.1 ht.1 ht.2)⟩
  refine (steps_satisfy hstep ⟨hs,h⟩ fun x hx => ⟨hopen x hx,?_⟩).1
  exact (hledgers x.2 (snd_mem_of_mem_steps hx)).1

/-- A retraction settles its entry and changes nothing else that decides a revival. -/
theorem retract_effect (hs : Sound s.finality) (hentry : s.finality.pending (asset,l) = some e)
    (hretract : failure (Model.retractPrice asset l) env s = none) :
    let s' := invoke (Model.retractPrice asset l) env s
    s'.finality.pending =
        Function.update s.finality.pending (asset,l) (some { e with status := .retracted }) ∧
      s'.finality.finalized = s.finality.finalized ∧
      s'.finality.ledgers = s.finality.ledgers ∧ s'.aggregate = s.aggregate ∧
      s'.isRegisteredAsset = s.isRegisteredAsset := by
  have hframe : Frame [.auths,.finality] (Model.retractPrice asset l) := by
    apply asAdmin_frame
    exact .lookup fun _ => (requirePending_frame _).bind fun _ =>
      (modifyFinality_frame _).mono (by simp)
  have hview (r : Region) (hr : r ∉ [Region.auths,.finality]) :
      r.view (commit (Model.retractPrice asset l) (World.enter env s)) =
        r.view (World.enter env s) := invoke_view hframe hr
  have hagg := congrArg Prod.fst (hview .aggregates (by simp))
  have hreg := congrArg Prod.fst (hview .registry (by simp))
  rcases invoke_cases (retractPrice_sat (w := World.enter env s) asset l) with
    h | ⟨_,w,hw,hst,_⟩
  · exact (h.1 hretract).elim
  · rw [hst] at hw
    obtain ⟨d,hd,_,hf⟩ := id hw
    rw [show (World.enter env s).store.finality.pending (asset,l) = some e from hentry,
      Option.some.injEq] at hd
    subst hd
    have hfinal : (invoke (Model.retractPrice asset l) env s).finality.finalized =
        s.finality.finalized := by
      rcases hw.finalized_eq hs with hfin | ⟨_,_,_,hcall,_⟩
      · exact hfin
      · cases hcall
    exact ⟨by rw [hf]; rfl,hfinal,by rw [hf]; rfl,hagg,hreg⟩

/-- After a retraction, the content can be revived exactly as before it, but under another ledger. -/
theorem revivable_retracted
    (hs : Sound s.finality) (hentry : s.finality.pending (asset,l) = some e)
    (hretract : failure (Model.retractPrice asset l) env s = none) :
    Revivable asset content n anyLedger (invoke (Model.retractPrice asset l) env s) ↔
      Revivable asset content n (fun m => m ≠ l) s := by
  obtain ⟨hpend,hfin,hledgers,hagg,hreg⟩ := retract_effect hs hentry hretract
  have hother (m : Nat) (hm : m ≠ l) :
      (invoke (Model.retractPrice asset l) env s).finality.pending (asset,m) =
        s.finality.pending (asset,m) := by
    rw [hpend,Function.update_of_ne (by simp [hm])]
  have hsame : (invoke (Model.retractPrice asset l) env s).finality.pending (asset,l) =
      some { e with status := .retracted } := by
    rw [hpend,Function.update_self]
  unfold Revivable AggregateOpen EntryOpen Ahead Store.getFinalityLedgers
  rw [hfin,hledgers,hagg,hreg]
  constructor
  · rintro (⟨h1,h2,m,hm,h3,h4,_,hahead,hfree⟩ | ⟨m,d,hd,hpending,hc,h1,h2,_,hahead⟩)
    · have hne : m ≠ l := by
        rintro rfl
        cases hfree _ hsame
      rw [hother m hne] at hfree
      exact .inl ⟨h1,h2,m,hm,h3,h4,hne,hahead,hfree⟩
    · have hne : m ≠ l := by
        rintro rfl
        rw [hsame,Option.some.injEq] at hd
        rw [← hd] at hpending
        cases hpending
      rw [hother m hne] at hd
      exact .inr ⟨m,d,hd,hpending,hc,h1,h2,hne,hahead⟩
  · rintro (⟨h1,h2,m,hm,h3,h4,hne,hahead,hfree⟩ | ⟨m,d,hd,hpending,hc,h1,h2,hne,hahead⟩)
    · rw [← hother m hne] at hfree
      exact .inl ⟨h1,h2,m,hm,h3,h4,trivial,hahead,hfree⟩
    · rw [← hother m hne] at hd
      exact .inr ⟨m,d,hd,hpending,hc,h1,h2,trivial,hahead⟩

/-- After a retraction the price stays out exactly when, under no other ledger, its content is that
of a stored aggregate that can be marked or of an open entry. -/
theorem retracted_stays_out (st : Store) (ts : List FinalityTx) (env : Env) (asset : Address)
    (l : Nat) (e : PendingFinalityEntry) (hclean : NoFinality st.finality)
    (hentry : (run execFinality st ts).finality.pending (asset, l) = some e)
    (hretract : failure (Model.retractPrice asset l) env (run execFinality st ts) = none) :
    StaysOut asset e.content env.sequence
        (execFinality (run execFinality st ts) ⟨env, .call (.retractPrice asset l)⟩) ↔
      ¬Revivable asset e.content env.sequence (fun m => m ≠ l) (run execFinality st ts) := by
  have hs : Sound (execFinality (run execFinality st ts)
      ⟨env,.call (.retractPrice asset l)⟩).finality := execFinality_sound (run_sound hclean)
  rw [← revivable_retracted (run_sound hclean) hentry hretract]
  constructor
  · intro hout hrevivable
    exact hrevivable.not_staysOut env hout
  · exact staysOut_of_not_revivable hs

/-- The aggregate is marked; in the second run a new one is published before the retraction. -/
def markedRun : List FinalityTx := [⟨.concrete 10 5 [], .call (.markPricePending 10)⟩]

def republishedRun : List FinalityTx :=
  markedRun ++ [⟨.concrete 11 5 [], .elsewhere { publishedStore with
    aggregate := Function.update (fun _ => none) 10 (some ⟨510, 6, 3, 7, false, 2⟩) }⟩]

/-- The entry that marking the aggregate of `publishedStore` at ledger 10 writes. -/
def markedEntry : PendingFinalityEntry :=
  ⟨500, 5, 3, 7, 10, 74, .pending, checksum (leBytes 4 10)⟩

/-- Once a new aggregate is published, a retraction is final. -/
theorem republished_stays_out :
    StaysOut 10 markedEntry.content 12 (execFinality (run execFinality publishedStore
      republishedRun) ⟨.concrete 12 5 [9], .call (.retractPrice 10 10)⟩) := by
  refine (retracted_stays_out publishedStore republishedRun (.concrete 12 5 [9]) 10 10
    markedEntry ⟨rfl,rfl⟩ (by decide) (by decide)).2 ?_
  rintro (⟨_,⟨a,ha,hcontent⟩,_⟩ | ⟨m,d,hd,_,_,_,_,hm,_⟩)
  · cases ha
    revert hcontent
    decide
  · have hpend : (run execFinality publishedStore republishedRun).finality.pending =
        Function.update (fun _ => none) (10,10) (some markedEntry) := rfl
    rw [hpend,Function.update_of_ne (by simp [hm])] at hd
    cases hd

/-- The unchanged aggregate is marked again after the retraction, by anyone, and becomes final. -/
theorem retracted_price_revived :
    (run execFinality publishedStore markedRun).finality.pending (10, 10) = some markedEntry ∧
      failure (Model.retractPrice 10 10) (.concrete 12 5 [9])
        (run execFinality publishedStore markedRun) = none ∧
      ¬StaysOut 10 markedEntry.content 12 (execFinality (run execFinality publishedStore
        markedRun) ⟨.concrete 12 5 [9], .call (.retractPrice 10 10)⟩) := by
  refine ⟨by decide,by decide,fun hout => ?_⟩
  let retracted := execFinality (run execFinality publishedStore markedRun)
    ⟨.concrete 12 5 [9],.call (.retractPrice 10 10)⟩
  let mark : FinalityTx := ⟨.concrete 13 5 [],.call (.markPricePending 10)⟩
  let final : FinalityTx := ⟨.concrete 80 5 [],.call (.tryFinalizePrice 10 13)⟩
  refine hout [mark,final] (by simp [mark,final,Env.concrete]) (by
    simp [mark,final,Env.concrete,u32Max]) (by
    simp [mark,final,Unpublished,FinalityCall.Permissionless])
    (execFinality retracted mark,final) (by simp [retracted]) ?_
  exact ⟨⟨500,5,3,7,13,80⟩,by decide,by decide,by decide⟩

end Runs

end PriceOracle.Finality
