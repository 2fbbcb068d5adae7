import SparseVllm.Prefix.IndexSpec

/-!
# Residency is contiguous from the root

A hit chain is attached without looking at the blocks above it, so a block on a tier needs all its
ancestors on that tier, and a block being backed up needs a parent that is on the host or being
backed up before it. Each method checks its neighbours only. Two of them check too little:
`abort_d2h` does not look for a child that is being backed up (as `abort_h2d` does for children on
the device), and `insert_block` takes a block in D2H below any device parent.

## Results

* **`rootContiguous_of_run`**: along every run whose aborts and insertions respect the backup path
  (`BackupPathKept`), residency is contiguous from the root on both tiers.
* `abortD2h_breaks_path`: an abort above a block in D2H breaks it.
-/

namespace SparseVllm.RadixPrefixIndex

open SparseVllm.Lib

variable {B P : Type} [LinearOrder B] {s t : RadixPrefixIndex B P}

/-- What a block on a tier, or in D2H, needs of its parent. -/
structure PathStep (child parent : PrefixBlockResidency) : Prop where
  device : child.devicePresent = true → parent.devicePresent = true
  host : child.hostPresent = true → parent.hostPresent = true
  backup : child.transfer = some .d2h →
    parent.hostPresent = true ∨ parent.transfer = some .d2h

theorem PathStep.refl (r : PrefixBlockResidency) : PathStep r r :=
  ⟨fun h => h, fun h => h, fun h => Or.inr h⟩

/-- Every block is where its parent allows it. -/
def Contiguous (s : RadixPrefixIndex B P) : Prop :=
  ∀ id b p parent, s.getBlock id = some b → b.parentBlockId = some p → s.getBlock p = some parent →
    PathStep b.residency parent.residency

/-- `a` is above `id` in the tree. -/
def Ancestor (s : RadixPrefixIndex B P) (a id : B) : Prop := Relation.TransGen s.Child id a

/-- The residency of `b`, with what is above it. -/
structure RootContiguous (s : RadixPrefixIndex B P) (id : B) (b : PrefixCacheBlock B P) : Prop where
  resident : b.residency.devicePresent = true ∨ b.residency.hostPresent = true
  device : b.residency.devicePresent = true → ∀ a, s.Ancestor a id →
    ∃ above, s.getBlock a = some above ∧ above.residency.devicePresent = true
  host : b.residency.hostPresent = true → ∀ a, s.Ancestor a id →
    ∃ above, s.getBlock a = some above ∧ above.residency.hostPresent = true
  d2h : b.residency.transfer = some .d2h →
    b.residency.devicePresent = true ∧ b.residency.hostPresent = false ∧
      ∀ p, b.parentBlockId = some p → ∃ parent, s.getBlock p = some parent ∧
        (parent.residency.hostPresent = true ∨ parent.residency.transfer = some .d2h)
  h2d : b.residency.transfer = some .h2d →
    b.residency.devicePresent = true ∧ b.residency.hostPresent = true

/-- A tier that passes from child to parent reaches every ancestor. -/
theorem ancestor_of_step (hs : Indexed s) (on : PrefixBlockResidency → Prop)
    (hstep : ∀ id b p parent, s.getBlock id = some b → b.parentBlockId = some p →
      s.getBlock p = some parent → on b.residency → on parent.residency)
    {id a : B} {b : PrefixCacheBlock B P} (hb : s.getBlock id = some b) (hon : on b.residency)
    (ha : s.Ancestor a id) : ∃ above, s.getBlock a = some above ∧ on above.residency := by
  have hparent : ∀ {c p : B} {cb : PrefixCacheBlock B P}, s.getBlock c = some cb →
      on cb.residency → s.Child c p → ∃ above, s.getBlock p = some above ∧ on above.residency := by
    intro c p cb hc hcon hchild
    obtain ⟨cb', hc', hp⟩ := child_iff.mp hchild
    obtain rfl := Option.some.inj (hc.symm.trans hc')
    obtain ⟨parent, hparent⟩ := hs.parent_indexed hc hp
    exact ⟨parent, hparent, hstep c cb p parent hc hp hparent hcon⟩
  induction ha with
  | single hchild => exact hparent hb hon hchild
  | tail _ hchild ih =>
    obtain ⟨above, habove, haon⟩ := ih
    exact hparent habove haon hchild

theorem Contiguous.rootContiguous (hs : Indexed s) (h : Contiguous s) {id : B}
    {b : PrefixCacheBlock B P} (hb : s.getBlock id = some b) : RootContiguous s id b := by
  have hvalid := hs.valid id b hb
  constructor
  · exact hvalid.1
  · intro hdevice a ha
    exact ancestor_of_step hs (fun r => r.devicePresent = true)
      (fun id b p parent hb hp hparent => (h id b p parent hb hp hparent).device) hb hdevice ha
  · intro hhost a ha
    exact ancestor_of_step hs (fun r => r.hostPresent = true)
      (fun id b p parent hb hp hparent => (h id b p parent hb hp hparent).host) hb hhost ha
  · intro hd2h
    obtain ⟨hdevice, hhost⟩ := hvalid.2.1 hd2h
    refine ⟨hdevice, hhost, fun p hp => ?_⟩
    obtain ⟨parent, hparent⟩ := hs.parent_indexed hb hp
    exact ⟨parent, hparent, (h id b p parent hb hp hparent).backup hd2h⟩
  · exact hvalid.2.2

/-! ## Steps -/

theorem Contiguous.retagged (h : Contiguous s) (ht : Retagged SameShape s t) : Contiguous t := by
  intro id b p parent hb hp hparent
  obtain ⟨b₀, hb₀, hsame⟩ := ht.backward hb
  obtain ⟨parent₀, hparent₀, hsame'⟩ := ht.backward hparent
  rw [hsame.residency, hsame'.residency]
  exact h id b₀ p parent₀ hb₀ (hsame.parent ▸ hp) hparent₀

/-- One residency changes: it has to suit the parent's, and the children's have to suit it. -/
theorem Contiguous.resided {id : B} {b : PrefixCacheBlock B P} {r : PrefixBlockResidency}
    (h : Contiguous s)
    (hup : ∀ p parent, b.parentBlockId = some p → s.getBlock p = some parent →
      PathStep r parent.residency)
    (hdown : ∀ c cb, s.getBlock c = some cb → cb.parentBlockId = some id →
      PathStep cb.residency r) :
    Contiguous (s.resided id b r) := by
  intro q qb p parent hq hp hparent
  rw [getBlock_resided] at hq hparent
  by_cases hqid : q = id
  · subst q
    rw [if_pos rfl] at hq
    obtain rfl := Option.some.inj hq
    by_cases hpid : p = id
    · subst p
      rw [if_pos rfl] at hparent
      obtain rfl := Option.some.inj hparent
      exact PathStep.refl r
    · rw [if_neg hpid] at hparent
      exact hup p parent hp hparent
  · rw [if_neg hqid] at hq
    by_cases hpid : p = id
    · subst p
      rw [if_pos rfl] at hparent
      obtain rfl := Option.some.inj hparent
      exact hdown q qb hq hp
    · rw [if_neg hpid] at hparent
      exact h q qb p parent hq hp hparent

theorem deviceChild_of {c id : B} {cb : PrefixCacheBlock B P} (hc : s.getBlock c = some cb)
    (hp : cb.parentBlockId = some id) (hdevice : cb.residency.devicePresent = true) :
    s.DeviceChild c id := by
  refine ⟨child_iff.mpr ⟨cb, hc, hp⟩, ?_⟩
  unfold childOnDevice
  rw [hc]
  exact hdevice

theorem parentReady_iff {b parent : PrefixCacheBlock B P} {p : B}
    {ready : PrefixBlockResidency → Bool} (hp : b.parentBlockId = some p)
    (hparent : s.getBlock p = some parent) : s.parentReady b ready = ready parent.residency := by
  unfold parentReady
  rw [hp]
  simp only [hparent]

/-- **The transfers and demotion keep the paths**, by what each checks. -/
theorem Contiguous.reside {id : B} {b : PrefixCacheBlock B P} {r : PrefixBlockResidency}
    (hs : Indexed s) (h : Contiguous s) (hb : s.getBlock id = some b)
    (hchange : ResidencyChange s b r) : Contiguous (s.resided id b r) := by
  have hid := hs.ids id b hb
  have hup := fun p parent (hp : b.parentBlockId = some p) (hparent : s.getBlock p = some parent) =>
    h id b p parent hb hp hparent
  have hdown := fun c cb (hc : s.getBlock c = some cb) (hp : cb.parentBlockId = some id) =>
    h c cb id b hc hp hb
  have hvalid := hs.valid id b hb
  cases hchange with
  | beginD2h refs host idle path =>
    refine h.resided (fun p parent hp hparent => ?_) fun c cb hc hp => ?_
    · rw [parentReady_iff hp hparent] at path
      exact ⟨(hup p parent hp hparent).device, (hup p parent hp hparent).host,
        fun _ => by simpa using path⟩
    · exact ⟨(hdown c cb hc hp).device, (hdown c cb hc hp).host, fun _ => Or.inr rfl⟩
  | finishD2h active path =>
    refine h.resided (fun p parent hp hparent => ?_) fun c cb hc hp => ?_
    · rw [parentReady_iff hp hparent] at path
      exact ⟨(hup p parent hp hparent).device, fun _ => path, nofun⟩
    · exact ⟨(hdown c cb hc hp).device, fun _ => rfl, fun _ => Or.inl rfl⟩
  | beginH2d device host idle path =>
    refine h.resided (fun p parent hp hparent => ?_) fun c cb hc hp => ?_
    · rw [parentReady_iff hp hparent] at path
      exact ⟨fun _ => path, (hup p parent hp hparent).host, nofun⟩
    · exact ⟨fun _ => rfl, (hdown c cb hc hp).host, fun _ => Or.inl host⟩
  | finishH2d active =>
    have hboth := hvalid.2.2 active
    refine h.resided (fun p parent hp hparent => ?_) fun c cb hc hp => ?_
    · exact ⟨(hup p parent hp hparent).device, (hup p parent hp hparent).host,
        nofun⟩
    · exact ⟨(hdown c cb hc hp).device, (hdown c cb hc hp).host, fun _ => Or.inl hboth.2⟩
  | abortH2d active children =>
    have hboth := hvalid.2.2 active
    refine h.resided (fun p parent hp hparent => ?_) fun c cb hc hp => ?_
    · exact ⟨nofun, (hup p parent hp hparent).host, nofun⟩
    · exact ⟨fun hd => absurd (deviceChild_of hc hp hd) (hid ▸ children c),
        (hdown c cb hc hp).host, fun _ => Or.inl hboth.2⟩
  | demote host idle children =>
    refine h.resided (fun p parent hp hparent => ?_) fun c cb hc hp => ?_
    · exact ⟨nofun, (hup p parent hp hparent).host,
        (hup p parent hp hparent).backup⟩
    · exact ⟨fun hd => absurd (deviceChild_of hc hp hd) (hid ▸ children c),
        (hdown c cb hc hp).host, fun _ => Or.inl host⟩

theorem Contiguous.change (hs : Indexed s) (h : Contiguous s) (hchange : Change s t) :
    Contiguous t := by
  cases hchange with
  | minor tags _ => exact h.retagged tags.shape
  | retag tags _ => exact h.retagged tags
  | reside here change => exact h.reside hs here change
  | remove _ _ gone =>
    intro q b p parent hq hp hparent
    rw [gone.getBlock] at hq hparent
    split at hq
    · cases hq
    split at hparent
    · cases hparent
    exact h q b p parent hq hp hparent
  | memo view _ => exact h

theorem Contiguous.changes (hs : Indexed s) (h : Contiguous s)
    (hsteps : Relation.ReflTransGen Change s t) : Contiguous t := by
  induction hsteps with
  | refl => exact h
  | tail hsteps hlast ih => exact ih.change (hs.changes hsteps) hlast

/-- The condition on a call: a block inserted in D2H hangs below a block on the host or in D2H, and
a D2H is aborted only when no child is in D2H. -/
def BackupPathKept (s : RadixPrefixIndex B P) : IndexOp B P → Prop
  | .insert block => s.getBlock block.stableBlockId = none →
      block.residency.transfer = some .d2h → ∀ p parent, block.parentBlockId = some p →
        s.getBlock p = some parent →
        parent.residency.hostPresent = true ∨ parent.residency.transfer = some .d2h
  | .abortD2h id => ∀ b, s.getBlock id = some b → b.residency.transfer = some .d2h →
      ∀ c cb, s.getBlock c = some cb → cb.parentBlockId = some id →
        cb.residency.transfer ≠ some .d2h
  | _ => True

theorem Contiguous.inserted {block : PrefixCacheBlock B P} (hs : Indexed s) (h : Contiguous s)
    (hkept : BackupPathKept s (.insert block)) (hnew : Inserted s block t) : Contiguous t := by
  intro q b p parent hq hp hparent
  rw [hnew.getBlock] at hq hparent
  by_cases hqid : q = block.stableBlockId
  · subst q
    rw [if_pos rfl] at hq
    obtain rfl := Option.some.inj hq
    obtain ⟨parent₀, hparent₀, hdevice, hhost⟩ := hnew.parent p hp
    have hpid : p ≠ block.stableBlockId := by
      rintro rfl
      rw [hnew.fresh] at hparent₀
      cases hparent₀
    rw [if_neg hpid] at hparent
    obtain rfl := Option.some.inj (hparent₀.symm.trans hparent)
    exact ⟨hdevice, hhost, fun hd => hkept hnew.fresh hd p parent₀ hp hparent₀⟩
  · rw [if_neg hqid] at hq
    by_cases hpid : p = block.stableBlockId
    · subst p
      exact absurd (child_iff.mpr ⟨b, hq, hp⟩) (hs.no_child_of_fresh hnew.fresh q)
    · rw [if_neg hpid] at hparent
      exact h q b p parent hq hp hparent

theorem Contiguous.outcome {op : IndexOp B P} (hs : Indexed s) (h : Contiguous s)
    (hkept : BackupPathKept s op) (hout : Outcome s op t) : Contiguous t := by
  cases hout with
  | changes steps => exact h.changes hs steps
  | inserted new => exact h.inserted hs hkept new
  | @aborted id b here active valid =>
    refine h.resided (fun p parent hp hparent => ?_) fun c cb hc hp => ?_
    · have hup := h id b p parent here hp hparent
      exact ⟨hup.device, hup.host, nofun⟩
    · have hdown := h c cb id b hc hp here
      exact ⟨hdown.device, hdown.host, fun hd => absurd hd (hkept b here active c cb hc hp)⟩

/-! ## Runs -/

theorem contiguous_of_run {blockSize : Nat} {maxBlocks : Option Nat}
    (run : Reachable IndexOp.exec BackupPathKept (initial blockSize maxBlocks) s) :
    Indexed s ∧ Contiguous s := by
  apply run.invariant (I := fun u => Indexed u ∧ Contiguous u)
  · refine ⟨indexed_initial blockSize maxBlocks, ?_⟩
    intro id b p parent hb
    cases hb
  · rintro u op ⟨hu, hcontiguous⟩ hkept
    have hout := op.outcome hu
    exact ⟨hout.indexed hu, hcontiguous.outcome hu hkept hout⟩

/-- **Residency stays root-contiguous** in every state of a run that respects the backup path. -/
theorem rootContiguous_of_run {blockSize : Nat} {maxBlocks : Option Nat}
    (run : Reachable IndexOp.exec BackupPathKept (initial blockSize maxBlocks) s) {id : B}
    {b : PrefixCacheBlock B P} (hb : s.getBlock id = some b) : RootContiguous s id b := by
  obtain ⟨hs, hcontiguous⟩ := contiguous_of_run run
  exact hcontiguous.rootContiguous hs hb

/-! ### Two runs -/

/-- Block `id` below `parent`, on the device. -/
def deviceBlock (id : Nat) (parent : Option Nat) : PrefixCacheBlock Nat Unit :=
  { stableBlockId := id
    parentBlockId := parent
    blockSize := 1
    logicalBlockIdx := 0
    payload := () }

/-- A block and its child are being backed up; the block's backup is aborted. -/
def abortedRun : List (IndexOp Nat Unit) :=
  [.insert (deviceBlock 1 none), .insert (deviceBlock 2 (some 1)), .beginD2h 1, .beginD2h 2,
    .abortD2h 1]

/-- Block 2 stays in D2H below a block that is neither on the host nor in D2H. -/
theorem abortD2h_breaks_path : ¬ ∀ s : RadixPrefixIndex Nat Unit,
    Reachable IndexOp.exec (fun _ _ => True) (initial 1 none) s →
    ∀ id b, s.getBlock id = some b → RootContiguous s id b := by
  intro h
  have hrun : Reachable IndexOp.exec (fun _ _ => True) (initial 1 none)
      (runAll IndexOp.exec (initial 1 none) abortedRun) :=
    Reachable.init.runAll (by simp [abortedRun, Along])
  have hchild : (runAll IndexOp.exec (initial 1 none) abortedRun).getBlock 2 = some
      { deviceBlock 2 (some 1) with lastAccess := 2, residency := ⟨true, false, some .d2h⟩ } := by
    decide +kernel
  have hparent : (runAll IndexOp.exec (initial 1 none) abortedRun).getBlock 1 = some
      { deviceBlock 1 none with lastAccess := 1, residency := ⟨true, false, none⟩ } := by
    decide +kernel
  obtain ⟨_, _, hpath⟩ := (h _ hrun 2 _ hchild).d2h rfl
  obtain ⟨parent, hp, hready⟩ := hpath 1 rfl
  obtain rfl := Option.some.inj (hparent.symm.trans hp)
  rcases hready with hhost | hd2h
  · cases hhost
  · cases hd2h

/-- The child's backup is aborted first. -/
def orderlyRun : List (IndexOp Nat Unit) :=
  [.insert (deviceBlock 1 none), .insert (deviceBlock 2 (some 1)), .beginD2h 1, .beginD2h 2,
    .abortD2h 2]

theorem rootContiguous_orderlyRun :
    RootContiguous (runAll IndexOp.exec (initial 1 none) orderlyRun) 1
      { deviceBlock 1 none with lastAccess := 1, residency := ⟨true, false, some .d2h⟩ } := by
  have kept : Along IndexOp.exec BackupPathKept (initial 1 none) orderlyRun := by
    refine ⟨fun _ h => ?_, fun _ h => ?_, trivial, trivial, fun b _ _ c cb hc hp => ?_, trivial⟩
    · cases h
    · cases h
    · -- block 2 has no child at all
      have hs : Indexed (runAll IndexOp.exec (initial 1 none) (orderlyRun.take 4)) :=
        have run : Reachable IndexOp.exec (fun _ _ => True) (initial 1 none) _ :=
          Reachable.init.runAll (by simp [orderlyRun, Along])
        indexed_of_run run
      have hcount : (runAll IndexOp.exec (initial 1 none) (orderlyRun.take 4)).backend.childCount 2
          = 0 := by decide +kernel
      exact absurd (child_iff.mpr ⟨cb, hc, hp⟩) (hs.childCount_eq_zero.mp hcount c)
  exact rootContiguous_of_run (Reachable.init.runAll kept) (by decide +kernel)

end SparseVllm.RadixPrefixIndex
