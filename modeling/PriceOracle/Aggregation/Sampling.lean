import PriceOracle.Aggregation.Counting

/-! # How many sources are sampled

Both ways of sampling sources return as many as they are asked for. The walk of an aggregation round
keeps a source at the latest when all the remaining ones are needed; the shuffle draws distinct
positions, and its two implementations draw the same ones. -/

namespace PriceOracle.Aggregation

open Model Lib.MachineInt Lib.Shuffle

theorem sampleSources_length {seed maxAgg total i kept : Nat} {sources : List Address}
    (htotal : total = i + sources.length) (hkept : kept < maxAgg)
    (hneeded : maxAgg - kept ≤ sources.length) :
    (sampleSources seed maxAgg total i kept sources).length = maxAgg - kept := by
  induction sources generalizing i kept with
  | nil =>
    rw [List.length_nil] at hneeded
    omega
  | cons s ss ih =>
    rw [List.length_cons] at htotal hneeded
    rw [sampleSources]
    split_ifs with hkeep hlast
    · rw [List.length_singleton]
      omega
    · rw [List.length_cons,ih (by omega) (by omega) (by omega)]
      omega
    · -- a source is only passed over while more remain than are needed
      exact ih (by omega) hkept (by omega)

section Shuffle

variable {host : Host} {sources : List Address} {cast : Nat → Nat} {d : Draw} {k : Nat}

/-- What the loop has drawn after `k` iterations: the sources at `k` distinct positions. -/
def Draws (sources : List Address) (k : Nat) (d : Draw) : Prop :=
  ∃ drawn, Drawn (List.range sources.length) k d.indices drawn ∧
    d.result = drawn.map fun p => sources.getD p 0

theorem drawStep_eq (hlen : sources.length ≤ u32Max) (hcast : ∀ p ≤ sources.length, cast p = p)
    (hk : k < sources.length) :
    ∃ j, k ≤ j ∧ j < sources.length ∧ drawStep cast host sources d k =
      ⟨exchange d.indices k j,d.result ++ [sources.getD ((exchange d.indices k j).getD k 0) 0],
        host.sha256 d.currentRand⟩ := by
  have hmod := Nat.mod_lt (ofBeBytes ((host.sha256 d.currentRand).take 4))
    (show 0 < sources.length - k by omega)
  have hwrap : wrap32 (k + ofBeBytes ((host.sha256 d.currentRand).take 4) % (sources.length - k)) =
      k + ofBeBytes ((host.sha256 d.currentRand).take 4) % (sources.length - k) := by
    unfold wrap32
    unfold u32Max at hlen
    omega
  refine ⟨k + ofBeBytes ((host.sha256 d.currentRand).take 4) % (sources.length - k),by omega,
    by omega,?_⟩
  simp only [drawStep,hcast k (by omega),hcast (sources.length - k) (by omega),hwrap]

theorem Draws.step (h : Draws sources k d) (hlen : sources.length ≤ u32Max)
    (hcast : ∀ p ≤ sources.length, cast p = p) (hk : k < sources.length) :
    Draws sources (k+1) (drawStep cast host sources d k) := by
  obtain ⟨drawn,hdrawn,hresult⟩ := h
  obtain ⟨j,hkj,hj,hstep⟩ := @drawStep_eq host sources cast d k hlen hcast hk
  rw [hstep]
  refine ⟨_,hdrawn.next hkj (by simpa using hj),?_⟩
  simp [hresult]

theorem draws_foldl (randomness : Bytes) (hlen : sources.length ≤ u32Max)
    (hcast : ∀ p ≤ sources.length, cast p = p) (hk : k ≤ sources.length) :
    Draws sources k ((List.range k).foldl (drawStep cast host sources)
      ⟨List.range sources.length,[],randomness⟩) := by
  induction k with
  | zero => exact ⟨[],drawn_zero _,rfl⟩
  | succ k ih =>
    rw [List.range_succ,List.foldl_append]
    exact (ih (by omega)).step hlen hcast (by omega)

theorem draw_length (h : Draws sources k d) (hk : k ≤ sources.length) : d.result.length = k := by
  obtain ⟨drawn,hdrawn,hresult⟩ := h
  simp [hresult,hdrawn.length (by simpa using hk)]

theorem draw_subset (h : Draws sources k d) : d.result ⊆ sources := by
  obtain ⟨drawn,hdrawn,hresult⟩ := h
  intro a ha
  rw [hresult,List.mem_map] at ha
  obtain ⟨p,hp,rfl⟩ := ha
  have hlt : p < sources.length := List.mem_range.1 (hdrawn.subset hp)
  simp [hlt]

theorem draw_nodup (h : Draws sources k d) (hsources : sources.Nodup) : d.result.Nodup := by
  obtain ⟨drawn,hdrawn,hresult⟩ := h
  rw [hresult]
  apply List.Nodup.map_on _ (hdrawn.nodup List.nodup_range)
  intro p hp q hq heq
  have hplt : p < sources.length := List.mem_range.1 (hdrawn.subset hp)
  have hqlt : q < sources.length := List.mem_range.1 (hdrawn.subset hq)
  have helem : sources[p] = sources[q] := by simpa [hplt,hqlt] using heq
  exact hsources.getElem_inj_iff.1 helem

theorem drawSources_cast (hcast : ∀ p ≤ sources.length, cast p = p) (n : Nat)
    (randomness : Bytes) :
    drawSources cast host sources n randomness = drawSources id host sources n randomness := by
  have hrange : (List.range sources.length).map cast = (List.range sources.length).map id :=
    List.map_congr_left fun p hp => hcast p (List.mem_range.1 hp).le
  have hsteps : ∀ d, ∀ i ∈ List.range (min n sources.length),
      drawStep cast host sources d i = drawStep id host sources d i := by
    intro d i hi
    have hlt := List.mem_range.1 hi
    simp only [drawStep,id_eq,hcast i (by omega),hcast (sources.length - i) (by omega)]
  simp only [drawSources,hrange]
  rw [List.foldl_ext _ _ _ hsteps]

end Shuffle

/-- The walk of an aggregation round with a cap below the number of sources keeps exactly as many
sources as the cap, in the order of the registry. The shuffle draws as many distinct sources as it is
asked for, or all, and both implementations draw the same. -/
theorem sampling_exact (host : Host) (sources : List Address) (hsources : sources.Nodup)
    (hlen : sources.length ≤ u32Max) :
    (∀ seed m, 0 < m → m < sources.length →
      (sampleSources seed m sources.length 0 0 sources).length = m ∧
        (sampleSources seed m sources.length 0 0 sources).Sublist sources) ∧
      ∀ n randomness,
        (selectSourcesDeterministic host sources n randomness).length = min n sources.length ∧
          (selectSourcesDeterministic host sources n randomness).Nodup ∧
          selectSourcesDeterministic host sources n randomness ⊆ sources ∧
          selectSourcesDeterministic host sources n randomness =
            selectSourcesFromRandomness host sources n randomness := by
  constructor
  · intro seed m hm hlt
    exact ⟨sampleSources_length (by omega) hm hlt.le,sampleSources_sublist _ _ _ _ _ _⟩
  · intro n randomness
    have hsame : selectSourcesFromRandomness host sources n randomness =
        selectSourcesDeterministic host sources n randomness := by
      apply drawSources_cast
      intro p hp
      unfold wrap32
      unfold u32Max at hlen
      omega
    rw [hsame]
    by_cases hnone : n = 0 ∨ sources.length = 0
    · simp only [selectSourcesDeterministic,drawSources,hnone,ite_true]
      refine ⟨?_,List.nodup_nil,List.nil_subset _,trivial⟩
      rw [List.length_nil]
      omega
    · have hdraws := @draws_foldl host sources id _ randomness hlen (fun _ _ => rfl)
        (Nat.min_le_right n sources.length)
      simp only [selectSourcesDeterministic,drawSources,hnone,ite_false,List.map_id]
      exact ⟨draw_length hdraws (Nat.min_le_right _ _),draw_nodup hdraws hsources,
        draw_subset hdraws,trivial⟩

/-- Three sources, sampled in one of the two ways. -/
theorem sampling_exact_three :
    (∀ seed m, 0 < m → m < 3 →
      (sampleSources seed m 3 0 0 [7, 8, 9]).length = m ∧
        (sampleSources seed m 3 0 0 [7, 8, 9]).Sublist [7, 8, 9]) ∧
      ∀ n randomness,
        (selectSourcesDeterministic checksumHost [7, 8, 9] n randomness).length = min n 3 ∧
          (selectSourcesDeterministic checksumHost [7, 8, 9] n randomness).Nodup ∧
          selectSourcesDeterministic checksumHost [7, 8, 9] n randomness ⊆ [7, 8, 9] ∧
          selectSourcesDeterministic checksumHost [7, 8, 9] n randomness =
            selectSourcesFromRandomness checksumHost [7, 8, 9] n randomness :=
  sampling_exact checksumHost [7,8,9] (by decide) (by decide)

end PriceOracle.Aggregation
