import Heterodyne.Header
import Heterodyne.Proofs.Configuration.Consistent
import Heterodyne.Proofs.Spectrum.Numbered
/-!
# The windows of a configuration as a tree

The windows of a configuration stand in one list. A hybrid names its subbands, the subbands name
their hybrid and stand right behind it, and the channels of both agree. The cubes and the header
are made apart from the windows, and they show the same subsystems.

* `ofSubsystem_of_plans`: the windows of a subsystem with an overlap and of one without.
* `isTree_of_planned`: the windows of planned subsystems form a tree.
* `windowTree_of_yields`: the windows, the cubes and the header of a configuration belong together.
-/

namespace Heterodyne

variable {α : Type}

/-! ## Trees -/

/-- A window is a hybrid of two others: it lists them, belongs to no hybrid itself, and has their
channels, without those that they share at both of their ends. -/
structure Window.IsHybridOf (w a b : Window α) : Prop where
  names : w.subbands = [a.id, b.id]
  root : w.parent = none
  channels : w.channels.toNat + 2 * w.overlapChannels.toNat = a.channels.toNat + b.channels.toNat

/-- The windows have different names, those with subbands are the ones that are not tuned, and
the two subbands of each stand right behind it and are the only ones that belong to it. -/
structure Configuration.IsTree (c : Configuration α) : Prop where
  distinct : (c.windows.map (·.id)).Nodup
  untuned : ∀ w ∈ c.windows,
    (w.subbands ≠ [] ↔ w.lo2 = none) ∧ (w.subbands ≠ [] ↔ w.shift = none)
  hybrids : ∀ w ∈ c.windows, w.subbands ≠ [] → ∃ before a b behind,
    c.windows = before ++ w :: a :: b :: behind ∧
    c.windows.filter (fun v => v.parent = some w.id) = [a, b] ∧ w.IsHybridOf a b

/-- A cube is that of a window: they have their name, rest frequency and channels in common. -/
structure CubeBlock.IsOf (q : CubeBlock α) (w : Window α) : Prop where
  window : q.window = w.id
  restFreq : q.restFreq = w.restFreq
  channelWidth : q.channelWidth = w.channelWidth
  channels : q.channels = w.channels

/-- Two cubes have one spatial grid. -/
structure CubeBlock.SameGrid (p q : CubeBlock α) : Prop where
  nx : p.nx = q.nx
  ny : p.ny = q.ny
  pixelX : p.pixelX = q.pixelX
  pixelY : p.pixelY = q.pixelY
  centreX : p.centreX = q.centreX
  centreY : p.centreY = q.centreY
  angle : p.angle = q.angle

variable [Scalar α] {settings : Settings α} {d : Bool} {ss : SubsystemPlan α}
  {r : Subsystem α} {k : Nat}

/-! ## Single subsystems -/

omit [Scalar α] in
/-- A hybrid bears the name of its subsystem. -/
@[simp] theorem Window.id_ofHybrid (ss : SubsystemPlan α) : (ofHybrid ss).id = ss.id.name := rfl

/-- A tuned window has no subbands. -/
@[simp] theorem Window.subbands_ofSubband (ss : SubsystemPlan α) (sb : Subband α) :
    (ofSubband ss sb).subbands = [] := rfl

/-- A subsystem with an overlap has a hybrid window and its two subbands, and the channels of these
make up those of the hybrid and of its overlap. Another one has the window of its own name, with
all of its channels. -/
theorem ofSubsystem_of_plans (h : Plans settings d (r, k) ss) :
    (Scalar.zero < r.overlap.value ∧ ∃ a b,
      Window.ofSubsystem ss = [.ofHybrid ss, .ofSubband ss a, .ofSubband ss b] ∧
      (Window.ofHybrid ss).IsHybridOf (.ofSubband ss a) (.ofSubband ss b) ∧
      (Window.ofSubband ss a).parent = some ss.id.name ∧
      (Window.ofSubband ss b).parent = some ss.id.name) ∨
    (¬ Scalar.zero < r.overlap.value ∧ ∃ a, Window.ofSubsystem ss = [.ofSubband ss a] ∧
      a.id = ss.id ∧ ss.subbandChannels = ss.hybridChannels) := by
  rcases cut_of_yields h with ⟨hover, ⟨a, b, hsubbands⟩, hchannels⟩ |
    ⟨hover, ⟨a, hsubbands, hid⟩, hchannels⟩
  · have hhybrid : ss.isHybrid = true := by
      rw [SubsystemPlan.isHybrid, hsubbands]
      rfl
    have hparent : ∀ sb, (Window.ofSubband ss sb).parent = some ss.id.name := fun sb => by
      rw [Window.ofSubband, hhybrid]
      rfl
    refine .inl ⟨hover, a, b, ?_, ⟨?_, rfl, hchannels⟩, hparent a, hparent b⟩
    · rw [Window.ofSubsystem, hhybrid, hsubbands]
      rfl
    · rw [Window.ofHybrid, hsubbands]
      rfl
  · have hsingle : ss.isHybrid = false := by
      rw [SubsystemPlan.isHybrid, hsubbands]
      rfl
    refine .inr ⟨hover, a, ?_, hid, hchannels⟩
    rw [Window.ofSubsystem, hsingle, hsubbands]
    rfl

/-- A subsystem bears its number in its name. -/
theorem name_id_of_plans (h : Plans settings d (r, k) ss) (hk : k < 2 ^ 32) :
    ss.id.name = "SPW" ++ toString k := by
  have hnumber : ss.number = UInt32.ofNat k := (wellCut_of_yields h).2
  have htext : Count.text (UInt32.ofNat k) = toString k := by
    rw [Count.text, UInt32.toNat_ofNat_of_lt' hk]
  show "SPW" ++ Count.text ss.number = _
  rw [hnumber, htext]

/-- The windows of a subsystem belong to no hybrid or to that of the subsystem. -/
theorem parent_of_mem_ofSubsystem {w : Window α} (hw : w ∈ Window.ofSubsystem ss) :
    w.parent = none ∨ w.parent = some ss.id.name := by
  rcases List.mem_append.1 hw with hw | hw
  · split at hw
    · rw [List.mem_singleton.1 hw]
      exact .inl rfl
    · exact absurd hw List.not_mem_nil
  · obtain ⟨sb, -, rfl⟩ := List.mem_map.1 hw
    rw [Window.ofSubband]
    split
    · exact .inr rfl
    · exact .inl rfl

/-- A window of a subsystem is its hybrid, which has subbands, or that of one of its subbands. -/
theorem eq_ofHybrid_or_ofSubband {w : Window α} (hw : w ∈ Window.ofSubsystem ss) :
    (w = .ofHybrid ss ∧ w.subbands ≠ []) ∨ ∃ sb ∈ ss.subbands, w = .ofSubband ss sb := by
  rcases List.mem_append.1 hw with hw | hw
  · split at hw
    · rename_i hhybrid
      rw [List.mem_singleton.1 hw]
      refine .inl ⟨rfl, ?_⟩
      intro hnone
      rw [Window.ofHybrid, List.map_eq_nil_iff] at hnone
      rw [SubsystemPlan.isHybrid, hnone] at hhybrid
      cases hhybrid
    · exact absurd hw List.not_mem_nil
  · obtain ⟨sb, hsb, rfl⟩ := List.mem_map.1 hw
    exact .inr ⟨sb, hsb, rfl⟩

/-- The window of a subsystem's own name has the data that its cube shows. -/
theorem exists_window_of_cube (h : Plans settings d (r, k) ss) (grid : Grid α) :
    ∃ w ∈ Window.ofSubsystem ss, (CubeBlock.ofCube
      ⟨ss.id, grid, ss.restFreq, ss.channelWidth, ss.hybridChannels⟩).IsOf w := by
  rcases ofSubsystem_of_plans h with ⟨-, a, b, hwindows, -⟩ | ⟨-, a, hwindows, hid, hchannels⟩
  · rw [hwindows]
    exact ⟨_, List.mem_cons_self, rfl, rfl, rfl, rfl⟩
  · rw [hwindows]
    refine ⟨_, List.mem_cons_self, ?_, rfl, rfl, hchannels.symm⟩
    show ss.id.name = a.id.name
    rw [hid]

/-! ## Planned subsystems -/

section Planned

variable {requests : List (Subsystem α × Nat)} {sss : List (SubsystemPlan α)}

/-- The subsystems bear their numbers in order. -/
theorem map_name_of_plans (h : List.Forall₂ (Plans settings d) requests sss)
    (hcounted : ∀ q ∈ requests, q.2 < 2 ^ 32) :
    sss.map (·.id.name) = requests.map fun q => "SPW" ++ toString q.2 := by
  induction h with
  | nil => rfl
  | cons hfirst _ ih =>
    rw [List.map_cons, List.map_cons, ih fun q hq => hcounted q (List.mem_cons_of_mem _ hq),
      name_id_of_plans hfirst (hcounted _ List.mem_cons_self)]

/-- The windows with subbands are those of the subsystems with an overlap, in order. -/
theorem map_id_hybrids (h : List.Forall₂ (Plans settings d) requests sss)
    (hcounted : ∀ q ∈ requests, q.2 < 2 ^ 32) :
    ((sss.flatMap Window.ofSubsystem).filter fun w => w.subbands ≠ []).map (·.id) =
      (requests.filter fun q => Scalar.zero < q.1.overlap.value).map
        fun q => "SPW" ++ toString q.2 := by
  induction h with
  | nil => rfl
  | @cons q ss requests sss hfirst _ ih =>
    have hname := name_id_of_plans hfirst (hcounted _ List.mem_cons_self)
    have hrest := ih fun p hp => hcounted p (List.mem_cons_of_mem _ hp)
    rw [List.flatMap_cons, List.filter_append, List.map_append, hrest, List.filter_cons]
    rcases ofSubsystem_of_plans hfirst with ⟨hover, a, b, hwindows, hhybrid, -⟩ |
      ⟨hover, a, hwindows, -⟩
    · have hsubbands : (Window.ofHybrid ss).subbands ≠ [] := by
        rw [hhybrid.names]
        exact List.cons_ne_nil _ _
      simp [hwindows, hover, hsubbands, hname]
    · simp [hwindows, hover]

/-- The windows of other subsystems do not belong to the hybrid of a subsystem. -/
theorem filter_parent_eq_nil {others : List (SubsystemPlan α)}
    (h : ∀ t ∈ others, t.number ≠ ss.number) :
    (others.flatMap Window.ofSubsystem).filter (fun v => v.parent = some ss.id.name) = [] := by
  rw [List.filter_flatMap, List.flatMap_eq_nil_iff]
  intro t ht
  rw [List.filter_eq_nil_iff]
  intro v hv
  rw [decide_eq_true_eq]
  intro hparent
  rcases parent_of_mem_ofSubsystem hv with hnone | hsome
  · cases hnone.symm.trans hparent
  · have hid := WindowId.name_injective (Option.some.inj (hsome.symm.trans hparent))
    exact h t ht (congrArg WindowId.subsystem hid)

/-- The two subbands of a hybrid stand right behind it, and no other windows belong to it. -/
theorem exists_subbands_of_hybrid (hwell : (Plan.mk sss).WellFormed) (hss : ss ∈ sss)
    {a b : Subband α}
    (hparts : Window.ofSubsystem ss = [.ofHybrid ss, .ofSubband ss a, .ofSubband ss b])
    (hfirst : (Window.ofSubband ss a).parent = some ss.id.name)
    (hsecond : (Window.ofSubband ss b).parent = some ss.id.name) :
    ∃ before behind, sss.flatMap Window.ofSubsystem =
        before ++ .ofHybrid ss :: .ofSubband ss a :: .ofSubband ss b :: behind ∧
      (sss.flatMap Window.ofSubsystem).filter (fun v => v.parent = some ss.id.name) =
        [.ofSubband ss a, .ofSubband ss b] := by
  obtain ⟨before, behind, rfl⟩ := List.mem_iff_append.1 hss
  -- The subsystems before and behind have other numbers.
  have hascending := hwell.ascending
  rw [List.pairwise_append, List.pairwise_cons] at hascending
  obtain ⟨-, ⟨hbehind, -⟩, hbefore⟩ := hascending
  have hotherBefore : ∀ t ∈ before, t.number ≠ ss.number :=
    fun t ht => UInt32.ne_of_lt (hbefore t ht ss List.mem_cons_self)
  have hotherBehind : ∀ t ∈ behind, t.number ≠ ss.number :=
    fun t ht => (UInt32.ne_of_lt (hbehind t ht)).symm
  have hroot : (Window.ofHybrid ss).parent = none := rfl
  refine ⟨before.flatMap Window.ofSubsystem, behind.flatMap Window.ofSubsystem, ?_, ?_⟩
  · rw [List.flatMap_append, List.flatMap_cons, hparts]
    rfl
  · rw [List.flatMap_append, List.flatMap_cons, hparts, List.filter_append, List.filter_append,
      filter_parent_eq_nil hotherBefore, filter_parent_eq_nil hotherBehind]
    simp [hfirst, hsecond, hroot]

/-- The windows of planned subsystems, whose numbers ascend, form a tree. -/
theorem isTree_of_planned {c : Configuration α} (hwell : (Plan.mk sss).WellFormed)
    (h : List.Forall₂ (Plans settings d) requests sss)
    (hwindows : c.windows = sss.flatMap Window.ofSubsystem) : c.IsTree where
  distinct := by
    rw [hwindows]
    exact hwell.nodup_names
  untuned w hw := by
    rw [hwindows] at hw
    obtain ⟨ss, -, hmem⟩ := List.mem_flatMap.1 hw
    rcases eq_ofHybrid_or_ofSubband hmem with ⟨rfl, hsubbands⟩ | ⟨sb, -, rfl⟩
    · exact ⟨iff_of_true hsubbands rfl, iff_of_true hsubbands rfl⟩
    · simp [Window.ofSubband]
  hybrids w hw hsome := by
    rw [hwindows] at hw ⊢
    obtain ⟨ss, hss, hmem⟩ := List.mem_flatMap.1 hw
    obtain ⟨⟨r, k⟩, -, hplans⟩ := exists_plans_of_mem h hss
    rcases eq_ofHybrid_or_ofSubband hmem with ⟨rfl, -⟩ | ⟨sb, -, rfl⟩
    · rcases ofSubsystem_of_plans hplans with ⟨-, a, b, hparts, hhybrid, hfirst, hsecond⟩ |
        ⟨-, a, hparts, -⟩
      · obtain ⟨before, behind, hsplit, hfilter⟩ :=
          exists_subbands_of_hybrid hwell hss hparts hfirst hsecond
        exact ⟨before, _, _, behind, hsplit, hfilter, hhybrid⟩
      · rw [hparts, List.mem_singleton] at hmem
        rw [hmem] at hsome
        exact absurd rfl hsome
    · exact absurd rfl hsome

end Planned

/-! ## Cubes -/

omit [Scalar α] in
/-- All cubes of a plan have one spatial grid. -/
theorem sameGrid_ofPlan {grid : Grid α} {plan : Plan α} {p q : CubeBlock α}
    (hp : p ∈ (Cube.ofPlan grid plan).map CubeBlock.ofCube)
    (hq : q ∈ (Cube.ofPlan grid plan).map CubeBlock.ofCube) : p.SameGrid q := by
  simp only [Cube.ofPlan, List.map_map, List.mem_map] at hp hq
  obtain ⟨s, -, rfl⟩ := hp
  obtain ⟨t, -, rfl⟩ := hq
  exact ⟨rfl, rfl, rfl, rfl, rfl, rfl, rfl⟩

/-! ## The header -/

omit [Scalar α] in
/-- The header of a configuration holds the keywords that apply, with their values. -/
theorem mem_headers_iff {c : Configuration α} {keyword : Keyword} {v : HeaderValue α} :
    (keyword, v) ∈ c.headers ↔ keyword ∈ Keyword.all ∧ keyword.value? c = some v := by
  simp only [Configuration.headers, List.mem_filterMap, Option.map_eq_some_iff, Prod.mk.injEq]
  constructor
  · rintro ⟨_, hall, _, hvalue, rfl, rfl⟩
    exact ⟨hall, hvalue⟩
  · rintro ⟨hall, hvalue⟩
    exact ⟨keyword, hall, v, hvalue, rfl, rfl⟩

omit [Scalar α] in
/-- The most subbands of windows of which each has none or two. -/
theorem foldl_subbands {ws : List (Window α)} {n : UInt32} (hn : n = 0 ∨ n = 2)
    (h : ∀ w ∈ ws, w.subbands = [] ∨ ∃ a b, w.subbands = [a, b]) :
    ws.foldl (fun n w => max n (UInt32.ofNat w.subbands.length)) n =
      if n = 2 ∨ ∃ w ∈ ws, w.subbands ≠ [] then 2 else 0 := by
  -- the number so far is none or two, and the next window leaves it so
  induction ws generalizing n with
  | nil => rcases hn with rfl | rfl <;> simp
  | cons w ws ih =>
    have hrest := fun v hv => h v (List.mem_cons_of_mem w hv)
    have hnext : max n (UInt32.ofNat w.subbands.length) =
        if n = 2 ∨ w.subbands ≠ [] then 2 else 0 := by
      rcases h w List.mem_cons_self with hnone | ⟨a, b, htwo⟩ <;> rcases hn with rfl | rfl <;>
        simp [*] <;> rfl
    rw [List.foldl_cons, hnext, ih (by split <;> simp) hrest]
    simp only [List.exists_mem_cons_iff, ← or_assoc]
    by_cases hfirst : n = 2 ∨ w.subbands ≠ [] <;> simp [hfirst]

omit [Scalar α] in
/-- In a tree of windows, the most subbands are two if there is a hybrid, and one otherwise. -/
theorem Configuration.IsTree.mostSubbands {c : Configuration α} (h : c.IsTree) :
    Keyword.mostSubbands c = if ∃ w ∈ c.windows, w.subbands ≠ [] then 2 else 1 := by
  have hparts : ∀ w ∈ c.windows, w.subbands = [] ∨ ∃ a b, w.subbands = [a, b] := by
    intro w hw
    by_cases hnone : w.subbands = []
    · exact .inl hnone
    · obtain ⟨-, a, b, -, -, -, hhybrid⟩ := h.hybrids w hw hnone
      exact .inr ⟨_, _, hhybrid.names⟩
  rw [Keyword.mostSubbands, foldl_subbands (.inl rfl) hparts]
  by_cases hsome : ∃ w ∈ c.windows, w.subbands ≠ []
  · rw [if_pos (.inr hsome), if_pos hsome]
    rfl
  · rw [if_neg (not_or_intro (by decide) hsome), if_neg hsome]
    rfl

/-! ## Configured observations -/

omit [Scalar α] in
/-- Elements with a property are found in a list exactly if they are in the numbered list. -/
theorem exists_mem_zipIdx_iff {β : Type} {xs : List β} {n : Nat} {p : β → Prop} :
    (∃ x ∈ xs, p x) ↔ ∃ q ∈ xs.zipIdx n, p q.1 := by
  conv_lhs => rw [← List.zipIdx_map_fst n xs]
  simp only [List.mem_map, exists_exists_and_eq_and]

/-- The windows of a configuration form a tree, in which the hybrids are those of the subsystems
with an overlap. Every subsystem has a cube, which is that of the window of its name, and all
cubes have one spatial grid. The header counts two subbands if there is a hybrid. -/
theorem windowTree_of_yields {i : Instrument α} {o : Descriptor α} {c : Configuration α}
    (h : (i.configure o).Yields d c) :
    c.IsTree ∧
    (c.windows.filter fun w => w.subbands ≠ []).map (·.id) =
      ((o.subsystems.zipIdx 1).filter fun q => Scalar.zero < q.1.overlap.value).map
        (fun q => "SPW" ++ toString q.2) ∧
    c.cubes.map (·.window) =
      (List.range' 1 o.subsystems.length).map (fun k => "SPW" ++ toString k) ∧
    (∀ q ∈ c.cubes, ∃ w ∈ c.windows, q.IsOf w) ∧
    (∀ p ∈ c.cubes, ∀ q ∈ c.cubes, p.SameGrid q) ∧
    ∀ v, (.subbands, v) ∈ c.headers ↔
      v = .count (if ∃ r ∈ o.subsystems, Scalar.zero < r.overlap.value then 2 else 1) := by
  obtain ⟨mode, plan, routing, cubes, timing, -, hplan, -, hcubes, -, rfl⟩ :=
    yields_configure_iff.1 h
  simp only [Descriptor.cubes, Run.yields_bind, Run.yields_pure] at hcubes
  obtain ⟨grid, -, rfl⟩ := hcubes
  have hwell := wellFormed_of_yields hplan
  obtain ⟨hcount, hplans⟩ := yields_planSubsystems_iff.1 (yields_ofSubsystems_iff.1 hplan)
  have hcounted : ∀ q ∈ o.subsystems.zipIdx 1, q.2 < 2 ^ 32 := by
    intro q hq
    have hlt := List.snd_lt_add_of_mem_zipIdx hq
    have hone : (1 : UInt32).toNat = 1 := rfl
    omega
  have htree : (Configuration.assemble mode plan routing (Cube.ofPlan grid plan) timing).IsTree :=
    isTree_of_planned hwell hplans rfl
  have hhybrids := map_id_hybrids hplans hcounted
  refine ⟨htree, hhybrids, ?_, ?_, fun p hp q hq => sameGrid_ofPlan hp hq, fun v => ?_⟩
  · show ((Cube.ofPlan grid plan).map CubeBlock.ofCube).map (·.window) = _
    rw [← List.zipIdx_map_snd 1 o.subsystems, Cube.ofPlan, List.map_map, List.map_map,
      List.map_map]
    exact map_name_of_plans hplans hcounted
  · intro q hq
    obtain ⟨cube, hcube, rfl⟩ := List.mem_map.1 hq
    obtain ⟨ss, hss, rfl⟩ := List.mem_map.1 hcube
    obtain ⟨⟨r, k⟩, -, hone⟩ := exists_plans_of_mem hplans hss
    obtain ⟨w, hw, hof⟩ := exists_window_of_cube hone grid
    exact ⟨w, List.mem_flatMap.2 ⟨ss, hss, hw⟩, hof⟩
  · -- There is a hybrid exactly if the list of their names is not empty.
    have hsome : (∃ w ∈ plan.subsystems.flatMap Window.ofSubsystem, w.subbands ≠ []) ↔
        ∃ r ∈ o.subsystems, Scalar.zero < r.overlap.value := by
      have hnil := congrArg (· ≠ []) hhybrids
      simp only [ne_eq, List.map_eq_nil_iff, List.filter_eq_nil_iff, decide_eq_true_eq, not_forall,
        not_not, exists_prop, eq_iff_iff] at hnil
      exact hnil.trans (exists_mem_zipIdx_iff
        (p := fun r : Subsystem α => Scalar.zero < r.overlap.value)).symm
    have hvalue : Keyword.mostSubbands (Configuration.assemble mode plan routing
        (Cube.ofPlan grid plan) timing) =
          if ∃ r ∈ o.subsystems, Scalar.zero < r.overlap.value then 2 else 1 := by
      rw [htree.mostSubbands]
      exact if_congr hsome rfl rfl
    rw [mem_headers_iff, Keyword.value?, hvalue, Option.some.injEq, eq_comm (b := v)]
    exact and_iff_right (by decide)

/-- The small map has a hybrid, its two subbands and a window of its own, in this order. -/
theorem windowTree_of_smallMap :
    ∃ c, ((⟨Settings.standard, Routing.twoReceptors⟩ : Instrument Binary64).configure
        smallMap).Yields false c ∧ c.IsTree ∧
      (c.windows.filter fun w => w.subbands ≠ []).map (·.id) = ["SPW1"] ∧
      c.cubes.map (·.window) = ["SPW1", "SPW2"] ∧
      (.subbands, .count 2) ∈ c.headers := by
  obtain ⟨c, hyields, -⟩ := exists_yields_smallMap
  obtain ⟨htree, hhybrids, hcubes, -, -, hheader⟩ := windowTree_of_yields hyields
  refine ⟨c, hyields, htree, hhybrids.trans (by decide +kernel), hcubes.trans rfl, ?_⟩
  exact (hheader _).2 (by decide +kernel)

end Heterodyne
