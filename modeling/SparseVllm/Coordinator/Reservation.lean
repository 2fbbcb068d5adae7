import SparseVllm.Coordinator.Mixed
import SparseVllm.Prefix.Shrinks

/-!
# Reservations of the mixed coordinator

A reservation is an id with its recurrent bytes. Between calls the reservations are those of the
pending blocks (`Resting`); inside a call one may be `landed`, its block indexed or given up and the
reservation not yet released. A call that only shrinks the index is `Calm` and keeps it; a
reservation is taken when both budgets have room for it, so landing a block never exceeds them.

## Results

* `reservations_exact`: in every state of every run the reservations are those of the pending
  blocks and within both budgets, a commit raises nothing about capacity or duplicates, and it
  resolves its duplicate references if and only if they are `Resolvable`.
* `duplicate_not_committed`: a run whose last commit has a reference that is not.
-/

namespace SparseVllm.Mixed

open SparseVllm.Lib RadixPrefixIndex

variable {B K R W X : Type}

/-- The id and the bytes of a pending block. -/
def PendingMixedPrefixBlock.reservation (p : PendingMixedPrefixBlock B K R) : B × Int :=
  (p.stableBlockId, p.payload.recurrentBytes)

/-- The raises about the budgets, duplicate blocks and the table of reservations. -/
def CoordinatorError.AboutReservation : CoordinatorError B X → Prop
  | .index e => e.AboutCapacity
  | .payloadOverBudget _ _ => True
  | .becameDuplicate => True
  | .unexpectedDuplicate => True
  | .reservationMissing => True
  | .negativePendingBytes => True
  | _ => False

/-- A raise that is neither about reservations nor about a duplicate reference. -/
def CoordinatorError.Foreign (e : CoordinatorError B X) : Prop :=
  ¬ e.AboutReservation ∧ e ≠ .duplicateNotCommitted

namespace PrefixCacheCoordinator

variable [LinearOrder B] {h : Components B K R W X} {c d : PrefixCacheCoordinator B K R W}

/-- The pending blocks of all requests. -/
def pending (c : PrefixCacheCoordinator B K R W) : List (PendingMixedPrefixBlock B K R) :=
  c.pendingBlocks.values.flatten

/-- Their reservations. -/
def reserved (c : PrefixCacheCoordinator B K R W) : List (B × Int) :=
  c.pending.map PendingMixedPrefixBlock.reservation

/-- The reservations are `landed` and `waiting`; the last are not indexed, and fit both budgets
beside what is. -/
structure Held (c : PrefixCacheCoordinator B K R W) (landed waiting : List (B × Int)) : Prop where
  indexed : Indexed c.prefixCache
  live : ∀ id b, c.prefixCache.getBlock id = some b → 0 ≤ b.payload.recurrentBytes
  ids : c.pendingBlockIds = ((landed ++ waiting).map Prod.fst).toFinset
  nodup : ((landed ++ waiting).map Prod.fst).Nodup
  bytes : c.pendingRecurrentBytes = ((landed ++ waiting).map Prod.snd).sum
  nonneg : ∀ r ∈ landed ++ waiting, 0 ≤ r.2
  fresh : ∀ r ∈ waiting, c.prefixCache.getBlock r.1 = none
  blocks : ∀ m, c.prefixCache.maxBlocks = some m → c.prefixCache.size + waiting.length ≤ m
  budget : c.liveRecurrentBytes + (waiting.map Prod.snd).sum ≤ c.maxRecurrentBytes

/-- Between calls the reservations are those of the pending blocks. -/
def Resting (c : PrefixCacheCoordinator B K R W) : Prop := Held c [] c.reserved

/-! ## Calls that leave reservations alone -/

/-- `d` has the reservations of `c`, and a part of its index. -/
structure Settles (c d : PrefixCacheCoordinator B K R W) : Prop where
  indexed : Indexed d.prefixCache
  shrinks : Shrinks c.prefixCache d.prefixCache
  pending : d.pendingBlocks = c.pendingBlocks
  ids : d.pendingBlockIds = c.pendingBlockIds
  bytes : d.pendingRecurrentBytes = c.pendingRecurrentBytes
  budget : d.maxRecurrentBytes = c.maxRecurrentBytes

/-- A call that leaves reservations alone, returning or raising. -/
def Calm {α : Type} (m : CoordinatorM B K R W X α) : Prop := ∀ c, Keeps (Settles c) m

theorem Settles.refl (hc : Indexed c.prefixCache) : Settles c c :=
  ⟨hc, Shrinks.refl _, rfl, rfl, rfl, rfl⟩

theorem Settles.reserved (hs : Settles c d) : d.reserved = c.reserved := by
  unfold PrefixCacheCoordinator.reserved PrefixCacheCoordinator.pending
  rw [hs.pending]

/-- The recurrent bytes of the index do not grow. -/
theorem Settles.live_le (hs : Settles c d)
    (hlive : ∀ id b, c.prefixCache.getBlock id = some b → 0 ≤ b.payload.recurrentBytes) :
    d.liveRecurrentBytes ≤ c.liveRecurrentBytes :=
  hs.shrinks.sum_le (f := MixedPrefixBlockPayload.recurrentBytes) hlive

theorem Held.settles {landed waiting : List (B × Int)} (hc : Held c landed waiting)
    (hs : Settles c d) : Held d landed waiting where
  indexed := hs.indexed
  live id b' hb' := by
    obtain ⟨b, hb, hp⟩ := hs.shrinks.blocks id b' hb'
    rw [hp]
    exact hc.live id b hb
  ids := hs.ids.trans hc.ids
  nodup := hc.nodup
  bytes := hs.bytes.trans hc.bytes
  nonneg := hc.nonneg
  fresh r hr := hs.shrinks.fresh (hc.fresh r hr)
  blocks m hm := by
    rw [hs.shrinks.maxBlocks] at hm
    exact le_trans (Nat.add_le_add_right hs.shrinks.size_le _) (hc.blocks m hm)
  budget := by
    rw [hs.budget]
    exact le_trans (Int.add_le_add_right (hs.live_le hc.live) _) hc.budget

theorem Resting.settles (hc : Resting c) (hs : Settles c d) : Resting d := by
  unfold Resting
  rw [hs.reserved]
  exact Held.settles hc hs

namespace Calm

variable {α β : Type}

theorem pure (a : α) : Calm (Pure.pure a : CoordinatorM B K R W X α) := fun _ => Keeps.pure a

theorem throw (e : CoordinatorError B X) : Calm (throw e : CoordinatorM B K R W X α) :=
  fun _ => Keeps.throw e

theorem bind {m : CoordinatorM B K R W X α} {f : α → CoordinatorM B K R W X β} (hm : Calm m)
    (hf : ∀ a, Calm (f a)) : Calm (m >>= f) := fun c => Keeps.bind (hm c) fun a => hf a c

theorem get_bind {f : PrefixCacheCoordinator B K R W → CoordinatorM B K R W X α}
    (hf : ∀ c, Calm (f c)) : Calm (get >>= f) := fun c => Keeps.bind Keeps.get fun d => hf d c

theorem raiseIf (p : Prop) [Decidable p] (e : CoordinatorError B X) :
    Calm (raiseIf p e : CoordinatorM B K R W X Unit) := fun _ => Keeps.raiseIf p e

theorem ite {p : Prop} [Decidable p] {m n : CoordinatorM B K R W X α} (hm : Calm m)
    (hn : Calm n) : Calm (if p then m else n) := fun c => Keeps.ite (hm c) (hn c)

theorem forEach {body : α → CoordinatorM B K R W X Unit} (hbody : ∀ a, Calm (body a))
    (l : List α) : Calm (forEach l body) := fun c => Keeps.forEach (fun a => hbody a c) l

/-- An update of what no reservation is read from. -/
theorem modify {f : PrefixCacheCoordinator B K R W → PrefixCacheCoordinator B K R W}
    (hindex : ∀ c, (f c).prefixCache = c.prefixCache)
    (hpending : ∀ c, (f c).pendingBlocks = c.pendingBlocks)
    (hids : ∀ c, (f c).pendingBlockIds = c.pendingBlockIds)
    (hbytes : ∀ c, (f c).pendingRecurrentBytes = c.pendingRecurrentBytes)
    (hmax : ∀ c, (f c).maxRecurrentBytes = c.maxRecurrentBytes) :
    Calm (modify f : CoordinatorM B K R W X PUnit) := fun _ => Keeps.modify fun d hd =>
  ⟨hindex d ▸ hd.indexed, hindex d ▸ hd.shrinks, (hpending d).trans hd.pending,
    (hids d).trans hd.ids, (hbytes d).trans hd.bytes, (hmax d).trans hd.budget⟩

/-- A read, an update of what no reservation is read from, and the rest. -/
theorem get_set {f : PrefixCacheCoordinator B K R W → PrefixCacheCoordinator B K R W}
    {g : PrefixCacheCoordinator B K R W → CoordinatorM B K R W X α}
    (hindex : ∀ c, (f c).prefixCache = c.prefixCache)
    (hpending : ∀ c, (f c).pendingBlocks = c.pendingBlocks)
    (hids : ∀ c, (f c).pendingBlockIds = c.pendingBlockIds)
    (hbytes : ∀ c, (f c).pendingRecurrentBytes = c.pendingRecurrentBytes)
    (hmax : ∀ c, (f c).maxRecurrentBytes = c.maxRecurrentBytes) (hg : ∀ c, Calm (g c)) :
    Calm (do let c ← get; set (f c); g c) := by
  intro c
  refine Spec.get_bind fun d hd => Spec.bind (R := fun _ => Settles c) (Spec.modify ?_)
    fun _ => hg d c
  intro _ _
  exact ⟨hindex d ▸ hd.indexed, hindex d ▸ hd.shrinks, (hpending d).trans hd.pending,
    (hids d).trans hd.ids, (hbytes d).trans hd.bytes, (hmax d).trans hd.budget⟩

/-- A method of the index that only makes changes. -/
theorem onIndex {m : PrefixIndexM B (MixedPrefixBlockPayload K R) α} (hm : Evolves m) :
    Calm (onIndex m : CoordinatorM B K R W X α) := by
  intro c
  refine Spec.zoom fun d hd => (hm.shrinks hd.indexed).conseq (fun _ h => h) ?_ ?_
  · exact fun _ t ht =>
      ⟨ht.1, hd.shrinks.trans ht.2, hd.pending, hd.ids, hd.bytes, hd.budget⟩
  · exact fun _ t ht =>
      ⟨ht.1, hd.shrinks.trans ht.2, hd.pending, hd.ids, hd.bytes, hd.budget⟩

theorem onWorld (m : EStateM X W α) : Calm (onWorld m : CoordinatorM B K R W X α) := by
  intro c
  refine Spec.zoom fun d hd => (Spec.trivial m).conseq (fun _ _ => trivial) ?_ ?_
  · exact fun _ _ _ => ⟨hd.indexed, hd.shrinks, hd.pending, hd.ids, hd.bytes, hd.budget⟩
  · exact fun _ _ _ => ⟨hd.indexed, hd.shrinks, hd.pending, hd.ids, hd.bytes, hd.budget⟩

end Calm

theorem transfers_shrink {s : MixedIndex B K R} (hs : Indexed s) (calls : List (TransferCall B)) :
    Indexed (runAll IndexOp.exec s (calls.map TransferCall.op)) ∧
      Shrinks s (runAll IndexOp.exec s (calls.map TransferCall.op)) := by
  induction calls generalizing s with
  | nil => exact ⟨hs, Shrinks.refl s⟩
  | cons call calls ih =>
    have hcall : ∀ block, (call.op : IndexOp B (MixedPrefixBlockPayload K R)) ≠ .insert block := by
      intro block
      cases call <;> exact nofun
    have hstep := (IndexOp.outcome hs call.op).indexed hs
    obtain ⟨hindexed, hshrinks⟩ := ih hstep
    exact ⟨hindexed, (IndexOp.shrinks hs hcall).trans hshrinks⟩

/-- What the offload controller does to the index is transfers. -/
theorem Calm.onController {α : Type} (f : MixedIndex B K R → W → OffloadReply B W X α) :
    Calm (onController f) := by
  intro c d hd
  obtain ⟨hindexed, hshrinks⟩ := transfers_shrink hd.indexed (f d.prefixCache d.world).calls
  have hafter : Settles c { d with
      prefixCache := runAll IndexOp.exec d.prefixCache
        ((f d.prefixCache d.world).calls.map TransferCall.op)
      world := (f d.prefixCache d.world).world } :=
    ⟨hindexed, hd.shrinks.trans hshrinks, hd.pending, hd.ids, hd.bytes, hd.budget⟩
  unfold PrefixCacheCoordinator.onController
  cases hr : (f d.prefixCache d.world).result with
  | ok a => simpa only [hr] using hafter
  | error e => simpa only [hr] using hafter

/-! ## Evictions -/

theorem calm_pollOffload : Calm (pollOffload h : CoordinatorM B K R W X Unit) := by
  unfold pollOffload
  exact Calm.ite (Calm.onController _) (Calm.pure ())

theorem calm_freeDeviceBlock (block : MixedBlock B K R) : Calm (freeDeviceBlock h block) :=
  (Calm.raiseIf _ _).bind fun _ => (Calm.onWorld _).bind fun _ => Calm.onWorld _

theorem calm_freeBlocks (blocks : List (MixedBlock B K R)) : Calm (freeBlocks h blocks) := by
  unfold freeBlocks
  refine Calm.bind (Calm.modify (fun _ => rfl) (fun _ => rfl) (fun _ => rfl) (fun _ => rfl)
    fun _ => rfl) fun _ => Calm.ite ?_ ?_
  · refine Calm.bind (Calm.forEach (fun block => ?_) blocks) fun _ => ?_
    · unfold freeTiers
      have hclear : Calm (modify fun c => { c with
          world := h.clearLayerStates block.payload.recurrentPayload c.world } :
          CoordinatorM B K R W X PUnit) :=
        Calm.modify (fun _ => rfl) (fun _ => rfl) (fun _ => rfl) (fun _ => rfl) fun _ => rfl
      exact Calm.ite ((calm_freeDeviceBlock block).bind fun _ => hclear)
        ((Calm.pure ()).bind fun _ => hclear)
    · exact Calm.ite (Calm.pure ()) (Calm.onWorld _)
  · exact Calm.forEach (fun _ => Calm.onWorld _) blocks

theorem calm_awaitD2h : Calm (awaitD2h h : CoordinatorM B K R W X Bool) := by
  unfold awaitD2h
  refine Calm.get_bind fun c => ?_
  refine Calm.ite (Calm.pure _) (Calm.bind (Calm.onController _) fun waited => ?_)
  refine Calm.ite (Calm.pure _) ?_
  exact calm_pollOffload.bind fun _ => Calm.get_bind fun _ => Calm.pure _

/-- `n` blocks have gone since `c`. -/
def Gone (c : PrefixCacheCoordinator B K R W) (n : Nat) (d : PrefixCacheCoordinator B K R W) :
    Prop :=
  Settles c d ∧ d.prefixCache.size + n ≤ c.prefixCache.size

theorem Settles.trans {e : PrefixCacheCoordinator B K R W} (hs : Settles c d) (ht : Settles d e) :
    Settles c e :=
  ⟨ht.indexed, hs.shrinks.trans ht.shrinks, ht.pending.trans hs.pending, ht.ids.trans hs.ids,
    ht.bytes.trans hs.bytes, ht.budget.trans hs.budget⟩

/-- A calm call brings no block back. -/
theorem Calm.gone {α : Type} {m : CoordinatorM B K R W X α} (hm : Calm m) (n : Nat) :
    Spec (Gone c n) m (fun _ => Gone c n) fun _ => Settles c := by
  apply Spec.intro
  intro d hd
  refine (Spec.start (hm d) (Settles.refl hd.1.indexed)).conseq (fun _ h => h) ?_ ?_
  · intro _ e he
    have hsize := he.shrinks.size_le
    exact ⟨hd.1.trans he, le_trans (Nat.add_le_add_right hsize n) hd.2⟩
  · exact fun _ e he => hd.1.trans he

/-- An eviction of the index, and the free of what it took. -/
theorem evict_gone {m : PrefixIndexM B (MixedPrefixBlockPayload K R) (List (MixedBlock B K R))}
    (hm : ∀ s, Indexed s → Spec (· = s) m (fun gone t => Evicted s gone.length t)
      fun _ t => Indexed t ∧ Shrinks s t) (n : Nat) :
    Spec (Gone c n)
      (do let evicted ← (PrefixCacheCoordinator.onIndex m : CoordinatorM B K R W X _)
          freeBlocks h evicted
          Pure.pure evicted.length)
      (fun k => Gone c (n + k)) fun _ => Settles c := by
  refine Spec.bind (R := fun evicted => Gone c (n + evicted.length)) ?_ fun evicted => ?_
  · refine Spec.zoom fun d hd => (hm _ hd.1.indexed).conseq (fun _ h => h) ?_ ?_
    · intro gone t ht
      have hsize := ht.size
      have hgone := hd.2
      refine ⟨⟨ht.indexed, hd.1.shrinks.trans ht.shrinks, hd.1.pending, hd.1.ids, hd.1.bytes,
        hd.1.budget⟩, ?_⟩
      show t.size + (n + gone.length) ≤ _
      omega
    · exact fun _ t ht => ⟨ht.1, hd.1.shrinks.trans ht.2, hd.1.pending, hd.1.ids, hd.1.bytes,
        hd.1.budget⟩
  · exact Spec.bind ((calm_freeBlocks evicted).gone _) fun _ => Spec.pure fun _ h => h

theorem evictHost_gone (remaining n : Nat) :
    Spec (Gone c n) (evictHost h remaining) (fun k => Gone c (n + k)) fun _ => Settles c :=
  evict_gone (fun _ hs => evictHostUntilFreeable_evicts hs _) n

theorem evictDevice_gone (needed n : Nat) :
    Spec (Gone c n) (evictDevice h needed) (fun k => Gone c (n + k)) fun _ => Settles c :=
  evict_gone (fun _ hs => evictUntilWeight_evicts hs _ _) n

theorem evictHostLoop_gone (needed fuel n : Nat) :
    Spec (Gone c n) (evictHostLoop h needed fuel n) (fun k => Gone c k) fun _ => Settles c := by
  induction fuel generalizing n with
  | zero => exact Spec.throw fun _ hd => hd.1
  | succ fuel ih =>
    unfold evictHostLoop
    refine Spec.ite (fun _ => Spec.pure fun _ hd => hd) fun _ => ?_
    refine Spec.bind (calm_pollOffload.gone n) fun _ => ?_
    refine Spec.bind (evictHost_gone _ n) fun first => ?_
    refine Spec.ite (fun _ => Spec.pure fun _ hd => hd) fun _ => ?_
    refine Spec.bind ((Calm.onIndex (evolves_demoteDeviceUntilWeight _ _)).gone _) fun demoted => ?_
    refine Spec.bind ((Calm.forEach calm_freeDeviceBlock demoted).gone _) fun _ => ?_
    refine Spec.bind (evictHost_gone _ _) fun second => ?_
    refine Spec.ite (fun _ => Spec.pure fun _ hd => hd) fun _ => ?_
    refine Spec.bind (calm_awaitD2h.gone _) fun progress => ?_
    exact Spec.ite (fun _ => ih _) fun _ => Spec.pure fun _ hd => hd

theorem evictHostBlocks_gone (fuel needed : Nat) :
    Spec (Gone c 0) (evictHostBlocks h fuel needed)
      (fun evicted d => Settles c d ∧ (evicted = true → Gone c needed d)) fun _ => Settles c := by
  unfold evictHostBlocks
  refine Spec.raiseIf_bind (fun _ _ hd => hd.1) fun _ => ?_
  refine Spec.bind (evictHostLoop_gone needed fuel 0) fun evicted => Spec.pure fun d hd => ⟨hd.1, ?_⟩
  exact fun heq => of_decide_eq_true heq ▸ hd

/-- **An eviction that reports success has made its blocks go.** -/
theorem evictBlocks_gone (fuel needed : Nat) :
    Spec (Gone c 0) (evictBlocks h fuel needed)
      (fun evicted d => Settles c d ∧ (evicted = true → Gone c needed d)) fun _ => Settles c := by
  unfold evictBlocks
  refine Spec.ite (fun _ => evictHostBlocks_gone fuel needed) fun _ => ?_
  refine Spec.bind (evictDevice_gone needed 0) fun evicted => Spec.pure fun d hd => ⟨hd.1, ?_⟩
  intro heq
  have hn : 0 + evicted = needed := (Nat.zero_add evicted).trans (of_decide_eq_true heq)
  exact hn ▸ hd

/-- The block budget has room for `n` more. -/
def BlockRoom (n : Nat) (c : PrefixCacheCoordinator B K R W) : Prop :=
  ∀ m, c.prefixCache.maxBlocks = some m → c.prefixCache.size + c.pendingBlockIds.card + n ≤ m

/-- The byte budget has room for `n` more. -/
def ByteRoom (n : Int) (c : PrefixCacheCoordinator B K R W) : Prop :=
  c.liveRecurrentBytes + c.pendingRecurrentBytes + n ≤ c.maxRecurrentBytes

theorem BlockRoom.settles {n : Nat} (hc : BlockRoom n c) (hs : Settles c d) : BlockRoom n d := by
  intro m hm
  have hroom := hc m (hs.shrinks.maxBlocks ▸ hm)
  have hsize := hs.shrinks.size_le
  rw [hs.ids]
  omega

theorem evictForBlocks_room (hc : Indexed c.prefixCache) (fuel n : Nat) :
    Spec (· = c) (evictForBlocks h fuel n)
      (fun room d => Settles c d ∧ (room = true → BlockRoom n d)) fun _ => Settles c := by
  unfold evictForBlocks
  refine Spec.get_bind fun e heq => ?_
  subst heq
  have hstart := Settles.refl hc
  cases hmax : e.prefixCache.maxBlocks with
  | none =>
    refine Spec.pure ?_
    rintro _ rfl
    refine ⟨hstart, fun _ m hm => ?_⟩
    rw [hmax] at hm
    cases hm
  | some m =>
    have hcap : ∀ {d}, Settles e d → ∀ m', d.prefixCache.maxBlocks = some m' → m' = m := by
      intro d hd m' hm'
      rw [hd.shrinks.maxBlocks, hmax] at hm'
      exact (Option.some.inj hm').symm
    have hsize : e.prefixCache.size = e.prefixCache.blocks.entries.length := rfl
    refine Spec.ite (fun hroom => Spec.pure ?_) fun hfull => ?_
    · rintro _ rfl
      refine ⟨hstart, fun _ m' hm' => ?_⟩
      rw [hcap hstart m' hm']
      exact hroom
    · refine ((evictBlocks_gone fuel _).start (s := e) ⟨hstart, Nat.le_refl _⟩).post
        fun evicted d hd => ⟨hd.1, fun htrue m' hm' => ?_⟩
      have hgone := (hd.2 htrue).2
      rw [hcap hd.1 m' hm', hd.1.ids]
      omega

theorem evictForBytes_room (fuel : Nat) (incoming : Int) :
    Spec (Settles c) (evictForBytes h incoming fuel)
      (fun room d => Settles c d ∧ (room = true → ByteRoom incoming d)) fun _ => Settles c := by
  induction fuel with
  | zero => exact Spec.throw fun _ hd => hd
  | succ fuel ih =>
    unfold evictForBytes
    refine Spec.get_bind fun d hd => ?_
    refine Spec.ite (fun hroom => Spec.pure ?_) fun _ => ?_
    · rintro _ rfl
      exact ⟨hd, fun _ => hroom⟩
    · have hgone := (evictBlocks_gone (h := h) fuel 1).start (s := d)
        ⟨Settles.refl hd.indexed, Nat.le_refl _⟩
      refine Spec.bind (R := fun _ => Settles c) (hgone.conseq (fun _ h => h)
        (fun _ _ he => hd.trans he.1) fun _ _ he => hd.trans he) fun evicted => ?_
      exact Spec.ite (fun _ => ih) fun _ => Spec.pure fun e he => ⟨he, nofun⟩

/-- **`_evict_for_insert` reports success only with room in both budgets.** -/
theorem evictForInsert_room (hc : Indexed c.prefixCache) (fuel n : Nat) (incoming : Int) :
    Spec (· = c) (evictForInsert h fuel n incoming)
      (fun room d => Settles c d ∧
        (room = true → 0 ≤ incoming ∧ BlockRoom n d ∧ ByteRoom incoming d))
      fun _ => Settles c := by
  have hstart := Settles.refl hc
  unfold evictForInsert
  refine Spec.raiseIf_bind (fun _ _ hd => hd ▸ hstart) fun hsign => ?_
  refine Spec.get_bind fun d hd => ?_
  refine Spec.raiseIf_bind (fun _ _ he => he ▸ hd ▸ hstart) fun _ => ?_
  subst hd
  refine Spec.bind (evictForBlocks_room hc fuel n) fun room => ?_
  refine Spec.ite (fun hroom => ?_) fun _ => Spec.pure fun e he => ⟨he.1, nofun⟩
  apply Spec.intro
  rintro e ⟨he, hblocks⟩
  refine ((evictForBytes_room fuel incoming).start (Settles.refl he.indexed)).conseq
    (fun _ h => h) (fun room' e' he' => ⟨he.trans he'.1, fun htrue => ?_⟩) fun _ _ he' => he.trans he'
  exact ⟨not_lt.mp hsign, (hblocks hroom).settles he'.1, he'.2 htrue⟩

/-! ## One reservation -/

theorem Held.perm {landed waiting waiting' : List (B × Int)} (hc : Held c landed waiting)
    (hperm : waiting.Perm waiting') : Held c landed waiting' where
  indexed := hc.indexed
  live := hc.live
  ids := by
    rw [hc.ids]
    exact List.toFinset_eq_of_perm _ _ ((hperm.append_left landed).map Prod.fst)
  nodup := (((hperm.append_left landed).map Prod.fst).nodup_iff).mp hc.nodup
  bytes := hc.bytes.trans ((hperm.append_left landed).map Prod.snd).sum_eq
  nonneg r hr := hc.nonneg r ((hperm.append_left landed).mem_iff.mpr hr)
  fresh r hr := hc.fresh r (hperm.mem_iff.mpr hr)
  blocks m hm := hperm.length_eq ▸ hc.blocks m hm
  budget := (hperm.map Prod.snd).sum_eq ▸ hc.budget

/-- A call moves reservations without touching what counts them. -/
theorem Held.of_same {landed waiting : List (B × Int)} (hc : Held c landed waiting)
    (hindex : d.prefixCache = c.prefixCache) (hids : d.pendingBlockIds = c.pendingBlockIds)
    (hbytes : d.pendingRecurrentBytes = c.pendingRecurrentBytes)
    (hmax : d.maxRecurrentBytes = c.maxRecurrentBytes) : Held d landed waiting where
  indexed := hindex ▸ hc.indexed
  live := hindex ▸ hc.live
  ids := hids.trans hc.ids
  nodup := hc.nodup
  bytes := hbytes.trans hc.bytes
  nonneg := hc.nonneg
  fresh := hindex ▸ hc.fresh
  blocks := hindex ▸ hc.blocks
  budget := by
    unfold liveRecurrentBytes
    rw [hindex, hmax]
    exact hc.budget

/-- The state after `pending_block_ids.add`. -/
def reserve (c : PrefixCacheCoordinator B K R W) (r : B × Int) : PrefixCacheCoordinator B K R W :=
  { c with
    pendingBlockIds := insert r.1 c.pendingBlockIds
    pendingRecurrentBytes := c.pendingRecurrentBytes + r.2 }

/-- The state after `pending_block_ids.remove`. -/
def unreserve (c : PrefixCacheCoordinator B K R W) (r : B × Int) :
    PrefixCacheCoordinator B K R W :=
  { c with
    pendingBlockIds := c.pendingBlockIds.erase r.1
    pendingRecurrentBytes := c.pendingRecurrentBytes - r.2 }

theorem Held.card {waiting : List (B × Int)} (hc : Held c [] waiting) :
    c.pendingBlockIds.card = waiting.length := by
  have hnodup := hc.nodup
  rw [hc.ids, List.toFinset_card_of_nodup hnodup, List.length_map, List.nil_append]

/-- A reservation taken with room in both budgets. -/
theorem Held.reserve {waiting : List (B × Int)} {r : B × Int} (hc : Held c [] waiting)
    (hnew : r.1 ∉ c.pendingBlockIds) (hfresh : c.prefixCache.getBlock r.1 = none)
    (hsign : 0 ≤ r.2) (hblocks : BlockRoom 1 c) (hbytes : ByteRoom r.2 c) :
    Held (c.reserve r) [] (r :: waiting) where
  indexed := hc.indexed
  live := hc.live
  ids := by
    show insert r.1 c.pendingBlockIds = _
    rw [hc.ids]
    exact (List.toFinset_cons).symm
  nodup := by
    refine List.nodup_cons.mpr ⟨fun hmem => hnew ?_, hc.nodup⟩
    rw [hc.ids]
    exact List.mem_toFinset.mpr hmem
  bytes := by
    show c.pendingRecurrentBytes + r.2 = _
    rw [hc.bytes, List.nil_append, List.nil_append, List.map_cons, List.sum_cons, Int.add_comm]
  nonneg := List.forall_mem_cons.mpr ⟨hsign, hc.nonneg⟩
  fresh := List.forall_mem_cons.mpr ⟨hfresh, hc.fresh⟩
  blocks m hm := by
    have hroom := hblocks m hm
    rw [hc.card] at hroom
    show c.prefixCache.size + (waiting.length + 1) ≤ m
    omega
  budget := by
    have hroom := hbytes
    unfold ByteRoom at hroom
    rw [hc.bytes, List.nil_append] at hroom
    show c.liveRecurrentBytes + ((r :: waiting).map Prod.snd).sum ≤ c.maxRecurrentBytes
    rw [List.map_cons, List.sum_cons]
    omega

/-- A reservation given up counts for neither budget. -/
theorem Held.land {landed waiting : List (B × Int)} {r : B × Int}
    (hc : Held c landed (r :: waiting)) : Held c (r :: landed) waiting where
  indexed := hc.indexed
  live := hc.live
  ids := by
    rw [hc.ids]
    exact List.toFinset_eq_of_perm _ _ (List.perm_middle.map Prod.fst)
  nodup := ((List.perm_middle.map Prod.fst).nodup_iff).mp hc.nodup
  bytes := hc.bytes.trans (List.perm_middle.map Prod.snd).sum_eq
  nonneg s hs := hc.nonneg s (List.perm_middle.mem_iff.mpr hs)
  fresh s hs := hc.fresh s (List.mem_cons_of_mem r hs)
  blocks m hm := by
    have hroom := hc.blocks m hm
    rw [List.length_cons] at hroom
    omega
  budget := by
    have hroom := hc.budget
    have hsign := hc.nonneg r (List.mem_append_right _ List.mem_cons_self)
    rw [List.map_cons, List.sum_cons] at hroom
    omega

theorem Held.nonneg_sum {landed waiting : List (B × Int)} (hc : Held c landed waiting) :
    0 ≤ c.pendingRecurrentBytes := by
  rw [hc.bytes]
  refine List.sum_nonneg fun x hx => ?_
  obtain ⟨r, hr, rfl⟩ := List.mem_map.mp hx
  exact hc.nonneg r hr

theorem Held.unreserve {landed waiting : List (B × Int)} {r : B × Int}
    (hc : Held c (r :: landed) waiting) : Held (c.unreserve r) landed waiting where
  indexed := hc.indexed
  live := hc.live
  ids := by
    show c.pendingBlockIds.erase r.1 = _
    have hnew : r.1 ∉ (landed ++ waiting).map Prod.fst := (List.nodup_cons.mp hc.nodup).1
    rw [hc.ids, List.cons_append, List.map_cons, List.toFinset_cons,
      Finset.erase_insert (fun h => hnew (List.mem_toFinset.mp h))]
  nodup := (List.nodup_cons.mp hc.nodup).2
  bytes := by
    show c.pendingRecurrentBytes - r.2 = _
    rw [hc.bytes, List.cons_append, List.map_cons, List.sum_cons]
    omega
  nonneg s hs := hc.nonneg s (List.mem_cons_of_mem r hs)
  fresh := hc.fresh
  blocks := hc.blocks
  budget := hc.budget

/-- **A release of a reservation that is held does not raise.** -/
theorem releasePendingReservation_run {landed waiting : List (B × Int)} {r : B × Int}
    (hc : Held c (r :: landed) waiting) :
    (releasePendingReservation r.1 r.2 : CoordinatorM B K R W X Unit) c =
      .ok () (c.unreserve r) := by
  have hmem : r.1 ∈ c.pendingBlockIds := by
    rw [hc.ids]
    exact List.mem_toFinset.mpr List.mem_cons_self
  have hsign : 0 ≤ (c.unreserve r).pendingRecurrentBytes := hc.unreserve.nonneg_sum
  unfold releasePendingReservation
  rw [get_bind, raiseIf_bind, if_neg (not_not.mpr hmem), modify_bind, get_bind]
  unfold raiseIf
  exact congrFun (if_neg (not_lt.mpr hsign)) _

/-! ## Recording -/

/-- Between calls, with a list of pending blocks for the request. -/
def Recording (seqId : SeqId) (c : PrefixCacheCoordinator B K R W) : Prop :=
  Resting c ∧ ∃ l, c.pendingBlocks.get? seqId = some l

theorem Calm.recording {α : Type} {m : CoordinatorM B K R W X α} (hm : Calm m) (seqId : SeqId) :
    Keeps (Recording seqId) m := by
  apply Spec.intro
  intro c hc
  have hafter : ∀ d, Settles c d → Recording seqId d := fun d hd =>
    ⟨hc.1.settles hd, by rw [hd.pending]; exact hc.2⟩
  exact (Spec.start (hm c) (Settles.refl hc.1.indexed)).conseq (fun _ h => h)
    (fun _ d hd => hafter d hd) fun _ d hd => hafter d hd

theorem Calm.resting {α : Type} {m : CoordinatorM B K R W X α} (hm : Calm m) :
    Keeps (Resting : PrefixCacheCoordinator B K R W → Prop) m := by
  apply Spec.intro
  intro c hc
  exact (Spec.start (hm c) (Settles.refl hc.indexed)).conseq (fun _ h => h)
    (fun _ d hd => hc.settles hd) fun _ d hd => hc.settles hd

theorem calm_holdMaterializedRef (seqId : SeqId) (id : B) :
    Calm (holdMaterializedRef seqId id : CoordinatorM B K R W X Unit) := by
  unfold holdMaterializedRef
  refine Calm.get_bind fun c => Calm.ite (Calm.pure ()) ?_
  refine (Calm.onIndex (evolves_acquireBlockRef id)).bind fun _ => ?_
  exact Calm.modify (fun _ => rfl) (fun _ => rfl) (fun _ => rfl) (fun _ => rfl) fun _ => rfl

theorem calm_advance (seqId : SeqId) (id : B) :
    Calm (advance seqId id : CoordinatorM B K R W X Unit) :=
  Calm.modify (fun _ => rfl) (fun _ => rfl) (fun _ => rfl) (fun _ => rfl) fun _ => rfl

theorem calm_setPendingTokens (seqId : SeqId) (tokens : List Int) :
    Calm (setPendingTokens seqId tokens : CoordinatorM B K R W X Unit) :=
  Calm.modify (fun _ => rfl) (fun _ => rfl) (fun _ => rfl) (fun _ => rfl) fun _ => rfl

theorem calm_addDuplicateRef (seqId : SeqId) (id : B) :
    Calm (addDuplicateRef seqId id : CoordinatorM B K R W X Unit) :=
  Calm.modify (fun _ => rfl) (fun _ => rfl) (fun _ => rfl) (fun _ => rfl) fun _ => rfl

theorem buildPayload_spec (hc : Indexed c.prefixCache) (seqId : SeqId) (blockSize blockStart : Nat)
    (recurrentBytes : Int) :
    Spec (· = c) (buildPayload h seqId blockSize blockStart recurrentBytes)
      (fun payload d => Settles c d ∧ payload.recurrentBytes = recurrentBytes)
      fun _ => Settles c := by
  unfold buildPayload
  refine Spec.start (P := Settles c) ?_ (Settles.refl hc)
  refine Spec.bind (Calm.onWorld _ c) fun kv => Spec.bind (Calm.onWorld _ c) fun recurrent => ?_
  refine Spec.bind (Calm.onWorld _ c) fun actual => Spec.bind (Calm.raiseIf _ _ c) fun _ => ?_
  exact Spec.bind (Calm.onWorld _ c) fun kvBytes => Spec.pure fun d hd => ⟨hd, rfl⟩

/-- **A reservation is taken only with room for it**, and then nothing else has changed but by
evictions. -/
theorem reservePendingBlock_spec {id : B} {recurrentBytes : Int} (hc : Resting c)
    (hfresh : c.prefixCache.getBlock id = none) (fuel : Nat) :
    Spec (· = c) (reservePendingBlock h fuel id recurrentBytes)
      (fun reserved d => if reserved then
          Held d [] ((id, recurrentBytes) :: c.reserved) ∧ d.pendingBlocks = c.pendingBlocks
        else Settles c d)
      fun _ => Settles c := by
  unfold reservePendingBlock
  refine Spec.get_bind fun _ heq => ?_
  rw [heq]
  refine Spec.ite (fun _ => Spec.pure fun d hd => ?_) fun hnew => ?_
  · rw [hd]
    exact Settles.refl hc.indexed
  refine Spec.bind (evictForInsert_room hc.indexed fuel 1 recurrentBytes) fun room => ?_
  refine Spec.ite (fun _ => Spec.pure fun d hd => hd.1) fun hroom => ?_
  refine Spec.bind (R := fun _ d => Held d [] ((id, recurrentBytes) :: c.reserved) ∧
    d.pendingBlocks = c.pendingBlocks) (Spec.modify ?_) fun _ => Spec.pure fun d hd => hd
  rintro d ⟨hd, hafter⟩
  obtain ⟨hsign, hblocks, hbytes⟩ := hafter (by simpa using hroom)
  refine ⟨?_, hd.pending⟩
  exact (Held.settles hc hd).reserve (r := (id, recurrentBytes)) (hd.ids ▸ hnew)
    (hd.shrinks.fresh hfresh) hsign hblocks hbytes

omit [LinearOrder B] in
/-- The pending blocks, those of one request first. -/
theorem pending_perm (c : PrefixCacheCoordinator B K R W) (seqId : SeqId) :
    c.pending.Perm
      ((c.pendingBlocks.get? seqId).getD [] ++ (c.pendingBlocks.pop seqId).values.flatten) :=
  Dict.flatten_values_perm c.pendingBlocks seqId

omit [LinearOrder B] in
theorem pending_append {seqId : SeqId} {p : PendingMixedPrefixBlock B K R}
    {l : List (PendingMixedPrefixBlock B K R)} (hl : c.pendingBlocks.get? seqId = some l)
    (hd : d.pendingBlocks = c.pendingBlocks.modify seqId (· ++ [p])) :
    d.pending.Perm (p :: c.pending) := by
  have hperm := c.pending_perm seqId
  rw [hl, Option.getD_some] at hperm
  unfold pending
  rw [hd, Dict.modify_of_get? hl, Dict.values_set, List.flatten_cons, List.append_assoc]
  calc l ++ ([p] ++ (c.pendingBlocks.pop seqId).values.flatten)
    _ |>.Perm (p :: (l ++ (c.pendingBlocks.pop seqId).values.flatten)) := List.perm_middle
    _ |>.Perm (p :: c.pending) := hperm.symm.cons p

/-- A new pending block takes the open reservation. -/
theorem appendPending_spec {seqId : SeqId} {p : PendingMixedPrefixBlock B K R}
    {l : List (PendingMixedPrefixBlock B K R)} (hl : c.pendingBlocks.get? seqId = some l)
    (hc : Held c [] (p.reservation :: c.reserved)) :
    Spec (· = c) (appendPending seqId p : CoordinatorM B K R W X Unit)
      (fun _ => Recording seqId) fun _ _ => False := by
  refine Spec.modify fun _ heq => ?_
  rw [heq]
  have hperm : PrefixCacheCoordinator.pending { c with
      pendingBlocks := c.pendingBlocks.modify seqId (· ++ [p]) } |>.Perm (p :: c.pending) :=
    pending_append hl rfl
  refine ⟨(hc.perm (hperm.map _).symm).of_same rfl rfl rfl rfl, l ++ [p], ?_⟩
  show (c.pendingBlocks.modify seqId (· ++ [p])).get? seqId = _
  rw [Dict.get?_modify, if_pos rfl, hl]
  rfl

/-- The `try` of `add_block`: the reservation goes to the new pending block, or is released. -/
theorem addReserved_recording {seqId : SeqId} {l : List (PendingMixedPrefixBlock B K R)}
    {id : B} {recurrentBytes : Int} (hl : c.pendingBlocks.get? seqId = some l)
    (hc : Held c [] ((id, recurrentBytes) :: c.reserved)) (state : MixedPrefixRuntimeState B)
    (blockTokens : List Int) :
    Spec (· = c)
      (onRaise (addReserved h seqId state blockTokens id recurrentBytes)
        (releasePendingReservation id recurrentBytes))
      (fun _ => Recording seqId) fun _ => Recording seqId := by
  refine Spec.onRaise (R := fun _ => Settles c) ?_ fun _ => ?_
  · unfold addReserved
    refine Spec.get_bind fun _ heq => ?_
    rw [heq]
    refine Spec.bind (buildPayload_spec hc.indexed seqId _ _ recurrentBytes) fun payload => ?_
    apply Spec.intro
    rintro d ⟨hd, hbytes⟩
    refine (appendPending_spec (hd.pending ▸ hl) ?_).conseq (fun _ h => h) (fun _ _ h => h)
      fun _ _ h => h.elim
    rw [hd.reserved, PendingMixedPrefixBlock.reservation, hbytes]
    exact hc.settles hd
  · -- the reservation is given up, the pending blocks are what they were
    rintro d hd
    have hheld := (hc.settles hd).land
    rw [releasePendingReservation_run (r := (id, recurrentBytes)) hheld]
    refine ⟨?_, l, hd.pending ▸ hl⟩
    show Held (d.unreserve (id, recurrentBytes)) [] d.reserved
    rw [hd.reserved]
    exact hheld.unreserve

theorem addNew_recording {seqId : SeqId} {id : B} (hc : Recording seqId c)
    (hfresh : c.prefixCache.getBlock id = none) (fuel : Nat) (state : MixedPrefixRuntimeState B)
    (blockTokens : List Int) :
    Spec (· = c) (addNew h fuel seqId state blockTokens id) (fun _ => Recording seqId)
      fun _ => Recording seqId := by
  have hafter : ∀ d, Settles c d → Recording seqId d := fun d hd =>
    ⟨hc.1.settles hd, by rw [hd.pending]; exact hc.2⟩
  obtain ⟨hrest, l, hl⟩ := hc
  unfold addNew
  refine Spec.bind (R := fun _ => Settles c) ((Spec.start (Calm.onWorld _ c)
    (Settles.refl hrest.indexed)).conseq (fun _ h => h) (fun _ _ h => h)
    fun _ d hd => hafter d hd) fun recurrentBytes => ?_
  apply Spec.intro
  intro d hd
  have hdl : d.pendingBlocks.get? seqId = some l := hd.pending ▸ hl
  refine Spec.bind ((reservePendingBlock_spec (hrest.settles hd) (hd.shrinks.fresh hfresh)
    fuel).conseq (fun _ h => h) (fun _ _ h => h) fun _ e he => hafter e (hd.trans he))
    fun reserved => ?_
  refine Spec.ite (fun hfull => ?_) fun hreserved => ?_
  · refine Spec.modify fun e he => ?_
    rw [hfull] at he
    have hce := hd.trans he
    exact hafter _ ⟨hce.indexed, hce.shrinks, hce.pending, hce.ids, hce.bytes, hce.budget⟩
  · apply Spec.intro
    intro e he
    rw [if_pos (by simpa using hreserved)] at he
    have hel : e.pendingBlocks.get? seqId = some l := he.2 ▸ hdl
    have hreserved : e.reserved = d.reserved := by
      unfold PrefixCacheCoordinator.reserved pending
      rw [he.2]
    refine Spec.bind (addReserved_recording hel (by rw [hreserved]; exact he.1) state blockTokens)
      fun _ => ?_
    exact (calm_advance seqId id).recording seqId

/-- **`add_block` keeps the reservations with the pending blocks.** -/
theorem addBlock_recording (fuel : Nat) (seqId : SeqId) (blockTokens : List Int) :
    Keeps (Recording seqId) (addBlock h fuel seqId blockTokens) := by
  unfold addBlock
  refine Spec.get_bind fun c hc => ?_
  refine Spec.raiseIf_bind (fun _ _ heq => heq ▸ hc) fun _ => ?_
  refine Spec.ite (fun _ => ?_) fun hfresh => Spec.ite (fun _ => ?_) fun _ => ?_
  · exact Spec.start (Keeps.bind ((calm_holdMaterializedRef seqId _).recording seqId)
      fun _ => (calm_advance seqId _).recording seqId) hc
  · exact Spec.start (Keeps.bind ((calm_addDuplicateRef seqId _).recording seqId)
      fun _ => (calm_advance seqId _).recording seqId) hc
  · exact addNew_recording hc (by simpa using hfresh) fuel _ blockTokens

theorem recordFullBlocks_recording (fuel : Nat) (seqId : SeqId) (tokenIds : List Int) :
    Keeps (Recording seqId) (recordFullBlocks h fuel seqId tokenIds) := by
  unfold recordFullBlocks
  refine Keeps.bind Keeps.get fun c => ?_
  refine Keeps.bind (Keeps.forEach (addBlock_recording fuel seqId) _) fun _ => ?_
  exact (calm_setPendingTokens seqId _).recording seqId

theorem recordInto_recording (fuel : Nat) (seqId : SeqId) (state : MixedPrefixRuntimeState B)
    (tokenIds : List Int) : Keeps (Recording seqId) (recordInto h fuel seqId state tokenIds) := by
  unfold recordInto
  refine Keeps.bind Keeps.get fun c => ?_
  refine Keeps.ite (recordFullBlocks_recording fuel seqId tokenIds) ?_
  refine Keeps.bind ((calm_setPendingTokens seqId _).recording seqId) fun _ => ?_
  refine Keeps.ite ?_ (Keeps.pure ())
  refine Keeps.bind (addBlock_recording fuel seqId _) fun _ => ?_
  refine Keeps.bind ((calm_setPendingTokens seqId _).recording seqId) fun _ => ?_
  exact recordFullBlocks_recording fuel seqId _

/-- A request that gets its list of pending blocks, or keeps it. -/
theorem Resting.recording {seqId : SeqId} (hc : Resting c)
    (hindex : d.prefixCache = c.prefixCache) (hids : d.pendingBlockIds = c.pendingBlockIds)
    (hbytes : d.pendingRecurrentBytes = c.pendingRecurrentBytes)
    (hmax : d.maxRecurrentBytes = c.maxRecurrentBytes)
    (hpending : d.pendingBlocks =
      c.pendingBlocks.set seqId ((c.pendingBlocks.get? seqId).getD [])) : Recording seqId d := by
  have hperm : d.pending.Perm c.pending := by
    unfold pending
    rw [hpending, Dict.values_set, List.flatten_cons]
    exact (c.pending_perm seqId).symm
  refine ⟨(Held.perm hc (hperm.map _).symm).of_same hindex hids hbytes hmax,
    (c.pendingBlocks.get? seqId).getD [], ?_⟩
  rw [hpending, Dict.get?_set_self]

theorem recordTokens_resting (fuel : Nat) (seqId : SeqId) (seq : Sequence B)
    (tokenIds : List Int) :
    Keeps (Resting : PrefixCacheCoordinator B K R W → Prop)
      (recordTokens h fuel seqId seq tokenIds) := by
  unfold recordTokens
  refine Keeps.ite (Keeps.pure ()) (Keeps.ite (Keeps.pure ()) ?_)
  refine Spec.get_bind fun c hc => ?_
  refine Spec.bind (R := fun _ => Recording seqId) (Spec.modify fun _ _ => ?_) fun _ => ?_
  · exact hc.recording rfl rfl rfl rfl rfl
  · exact (recordInto_recording fuel seqId _ tokenIds).conseq (fun _ h => h) (fun _ _ h => h.1)
      fun _ _ h => h.1

/-- **`record_step_tokens` keeps the reservations with the pending blocks.** -/
theorem recordStepTokens_resting (fuel : Nat) (seqs : List (SeqId × Sequence B))
    (isPrefill : Bool) :
    Keeps (Resting : PrefixCacheCoordinator B K R W → Prop)
      (recordStepTokens h fuel seqs isPrefill) := by
  unfold recordStepTokens
  refine Keeps.forEach (fun ⟨seqId, seq⟩ => ?_) seqs
  refine Keeps.bind Keeps.get fun c => Keeps.ite (Keeps.pure ()) (Keeps.ite ?_ ?_)
  · unfold recordPrefill
    refine Keeps.bind Keeps.get fun c => Keeps.ite (Keeps.pure ()) ?_
    exact Keeps.bind (Keeps.raiseIf _ _) fun _ => recordTokens_resting fuel seqId seq _
  · unfold recordDecode
    split
    · exact Keeps.throw _
    · exact recordTokens_resting fuel seqId seq _

/-! ## Giving reservations up -/

/-- The reservations of a list of blocks, released. -/
theorem releaseAll_spec {landed waiting : List (B × Int)}
    (blocks : List (PendingMixedPrefixBlock B K R))
    (hc : Held c landed (blocks.map PendingMixedPrefixBlock.reservation ++ waiting)) :
    Spec (· = c) (forEach blocks releasePending : CoordinatorM B K R W X Unit)
      (fun _ d => Held d landed waiting ∧ d.pendingBlocks = c.pendingBlocks) fun _ _ => False := by
  refine Spec.start (P := fun d => Held d landed
      (blocks.map PendingMixedPrefixBlock.reservation ++ waiting) ∧
    d.pendingBlocks = c.pendingBlocks) ?_ ⟨hc, rfl⟩
  refine (Spec.forEach (I := fun rest d => Held d landed
      (rest.map PendingMixedPrefixBlock.reservation ++ waiting) ∧
    d.pendingBlocks = c.pendingBlocks) (fun p rest => ?_) blocks).post fun _ _ h => h
  rintro d ⟨hd, hpending⟩
  have hrun := releasePendingReservation_run (X := X) (r := p.reservation) hd.land
  rw [show (releasePending p : CoordinatorM B K R W X Unit) d = _ from hrun]
  exact ⟨hd.land.unreserve, hpending⟩

/-- The pending blocks of a request leave the table; their reservations are still held. -/
theorem Resting.pop {seqId : SeqId} (hc : Resting c)
    (hindex : d.prefixCache = c.prefixCache) (hids : d.pendingBlockIds = c.pendingBlockIds)
    (hbytes : d.pendingRecurrentBytes = c.pendingRecurrentBytes)
    (hmax : d.maxRecurrentBytes = c.maxRecurrentBytes)
    (hpending : d.pendingBlocks = c.pendingBlocks.pop seqId) :
    Held d [] (((c.pendingBlocks.get? seqId).getD []).map PendingMixedPrefixBlock.reservation ++
      d.reserved) := by
  have hperm := c.pending_perm seqId
  rw [← hpending] at hperm
  have hmap := hperm.map PendingMixedPrefixBlock.reservation
  rw [List.map_append] at hmap
  exact (Held.perm hc hmap).of_same hindex hids hbytes hmax

theorem dropPending_resting (seqId : SeqId) :
    Keeps (Resting : PrefixCacheCoordinator B K R W → Prop)
      (dropPending seqId : CoordinatorM B K R W X Unit) := by
  unfold dropPending
  refine Spec.get_bind fun c hc => ?_
  refine Spec.bind (R := fun _ d => Held d []
      (((c.pendingBlocks.get? seqId).getD []).map PendingMixedPrefixBlock.reservation ++
        d.reserved)) (Spec.modify fun _ _ => ?_) fun _ => ?_
  · exact hc.pop rfl rfl rfl rfl rfl
  · apply Spec.intro
    intro d hd
    refine Spec.bind (R := fun _ => Resting) ((releaseAll_spec _ hd).conseq (fun _ h => h)
      (fun _ e he => ?_) fun _ _ h => h.elim) fun _ => ?_
    · have hreserved : e.reserved = d.reserved := by
        unfold PrefixCacheCoordinator.reserved pending
        rw [he.2]
      unfold Resting
      rw [hreserved]
      exact he.1
    · refine Calm.resting ?_
      exact Calm.modify (fun _ => rfl) (fun _ => rfl) (fun _ => rfl) (fun _ => rfl) fun _ => rfl

theorem calm_evictHostBlocks (fuel needed : Nat) :
    Calm (evictHostBlocks h fuel needed : CoordinatorM B K R W X Bool) := by
  intro c
  apply Spec.intro
  intro d hd
  exact ((evictHostBlocks_gone fuel needed).start (s := d)
    ⟨Settles.refl hd.indexed, Nat.le_refl _⟩).conseq (fun _ h => h)
    (fun _ _ he => hd.trans he.1) fun _ _ he => hd.trans he

theorem calm_submitWriteThrough (fuel : Nat) (selected : List B) :
    Calm (submitWriteThrough h fuel selected : CoordinatorM B K R W X Unit) := by
  unfold submitWriteThrough
  refine Calm.ite (Calm.pure ()) (Calm.bind ?_ fun _ => (Calm.onController _).bind fun _ => ?_)
  · unfold ensureHostCapacity
    refine (Calm.raiseIf _ _).bind fun _ => Calm.get_bind fun e => ?_
    refine Calm.ite (Calm.pure ()) ((calm_evictHostBlocks fuel _).bind fun evicted => ?_)
    exact Calm.get_bind fun _ => Calm.raiseIf _ _
  · exact Calm.modify (fun _ => rfl) (fun _ => rfl) (fun _ => rfl) (fun _ => rfl) fun _ => rfl

theorem calm_scheduleWriteThrough (fuel : Nat) (newlyUnreferenced : List B) :
    Calm (scheduleWriteThrough h fuel newlyUnreferenced : CoordinatorM B K R W X Unit) := by
  unfold scheduleWriteThrough
  refine Calm.ite ?_ (Calm.pure ())
  refine Calm.get_bind fun c => (Calm.raiseIf _ _).bind fun _ => ?_
  refine calm_pollOffload.bind fun _ => ?_
  exact Calm.get_set (fun _ => rfl) (fun _ => rfl) (fun _ => rfl) (fun _ => rfl) (fun _ => rfl)
    fun _ => calm_submitWriteThrough fuel _

/-- **`release_seq` keeps the reservations with the pending blocks.** -/
theorem releaseSeq_resting (fuel : Nat) (seqId : SeqId) :
    Keeps (Resting : PrefixCacheCoordinator B K R W → Prop) (releaseSeq h fuel seqId) := by
  unfold releaseSeq
  refine Spec.get_bind fun c hc => ?_
  refine Spec.bind (R := fun _ => Resting) (Spec.modify fun _ _ => ?_) fun _ => ?_
  · exact hc.settles ⟨hc.indexed, Shrinks.refl _, rfl, rfl, rfl, rfl⟩
  refine Keeps.bind (Calm.resting (Calm.forEach (fun id => ?_) _)) fun _ => ?_
  · exact Calm.onIndex (evolves_releaseBlockRef id)
  · exact Keeps.bind (dropPending_resting seqId) fun _ =>
      (calm_scheduleWriteThrough fuel _).resting

/-! ## Committing -/

/-- `c` has a block of this id. -/
def HasBlock (c : PrefixCacheCoordinator B K R W) (id : B) : Prop :=
  (c.prefixCache.getBlock id).isSome = true

/-- `d` has the blocks of `c` and those of `ids`, and the tables of `c`. -/
structure Gains (c : PrefixCacheCoordinator B K R W) (ids : List B)
    (d : PrefixCacheCoordinator B K R W) : Prop where
  blocks : ∀ id, d.HasBlock id ↔ c.HasBlock id ∨ id ∈ ids
  pending : d.pendingBlocks = c.pendingBlocks
  duplicates : d.pendingDuplicateRefs = c.pendingDuplicateRefs

theorem Gains.refl (c : PrefixCacheCoordinator B K R W) : Gains c [] c :=
  ⟨fun id => by simp, rfl, rfl⟩

theorem Gains.trans {e : PrefixCacheCoordinator B K R W} {ids ids' : List B} (hd : Gains c ids d)
    (he : Gains d ids' e) : Gains c (ids ++ ids') e where
  blocks id := by rw [he.blocks, hd.blocks, List.mem_append, or_assoc]
  pending := he.pending.trans hd.pending
  duplicates := he.duplicates.trans hd.duplicates

/-- A block inserted under its reservation. -/
theorem Held.insert {waiting : List (B × Int)} {block : MixedBlock B K R} {t : MixedIndex B K R}
    (hc : Held c [] ((block.stableBlockId, block.payload.recurrentBytes) :: waiting))
    (ht : Inserted c.prefixCache block t) :
    Held { c with prefixCache := t } [(block.stableBlockId, block.payload.recurrentBytes)]
      waiting where
  indexed := hc.indexed.inserted ht
  live id b hb := by
    rw [ht.getBlock] at hb
    split at hb
    · obtain rfl := Option.some.inj hb
      exact hc.nonneg _ List.mem_cons_self
    · exact hc.live id b hb
  ids := hc.ids
  nodup := hc.nodup
  bytes := hc.bytes
  nonneg := hc.nonneg
  fresh r hr := by
    have hmem : r.1 ∈ waiting.map Prod.fst := List.mem_map_of_mem hr
    have hne : r.1 ≠ block.stableBlockId := fun heq =>
      (List.nodup_cons.mp hc.nodup).1 (heq ▸ hmem)
    rw [ht.getBlock, if_neg hne]
    exact hc.fresh r (List.mem_cons_of_mem _ hr)
  blocks m hm := by
    have hroom := hc.blocks m (ht.maxBlocks ▸ hm)
    have hsize : t.size = c.prefixCache.size + 1 := by
      unfold RadixPrefixIndex.size
      rw [ht.blocks]
      have hvalues := congrArg List.length (Dict.values_set c.prefixCache.blocks
        block.stableBlockId { block with lastAccess := c.prefixCache.clock + 1 })
      rw [Dict.pop_of_get?_none ht.fresh] at hvalues
      simpa [Dict.values] using hvalues
    rw [List.length_cons] at hroom
    show t.size + waiting.length ≤ m
    omega
  budget := by
    have hroom := hc.budget
    have hlive : (({ c with prefixCache := t } : PrefixCacheCoordinator B K R W)).liveRecurrentBytes =
        block.payload.recurrentBytes + c.liveRecurrentBytes := by
      unfold liveRecurrentBytes
      show (t.blocks.values.map _).sum = _
      rw [ht.blocks, Dict.values_set, Dict.pop_of_get?_none ht.fresh, List.map_cons, List.sum_cons]
    rw [List.map_cons, List.sum_cons] at hroom
    rw [hlive]
    show _ ≤ (c.maxRecurrentBytes : Int)
    omega

theorem raises_rollbackCommitted (seqId : SeqId) (p : PendingMixedPrefixBlock B K R) :
    RaisesOnly CoordinatorError.Foreign (rollbackCommitted h seqId p) := by
  have hupdate : RaisesOnly CoordinatorError.Foreign
      (updateMaterialized seqId (·.erase p.stableBlockId) : CoordinatorM B K R W X Unit) :=
    RaisesOnly.modify _
  unfold rollbackCommitted
  refine RaisesOnly.bind (RaisesOnly.zoom fun _ _ _ _ => ⟨not_false, nofun⟩) fun _ => ?_
  refine hupdate.bind fun _ => RaisesOnly.bind (RaisesOnly.zoom ?_) fun _ => RaisesOnly.zoom ?_
  · intro s t e he
    rcases setBlockRefCount_retagged (s := s) p.stableBlockId 0 with ⟨e', he', hcase⟩ | ⟨t', ht', -⟩
    · rw [he'] at he
      obtain ⟨rfl, -⟩ := EStateM.Result.error.inj he
      rcases hcase with rfl | rfl
      · exact ⟨not_false, nofun⟩
      · exact ⟨not_false, nofun⟩
    · rw [ht'] at he
      cases he
  · intro s t e he
    exact ⟨raisesNoCapacity_rollbackInsertedLeaf p.stableBlockId he, nofun⟩

theorem calm_rollbackCommitted (seqId : SeqId) (p : PendingMixedPrefixBlock B K R) :
    Calm (rollbackCommitted h seqId p) := by
  unfold rollbackCommitted
  refine (Calm.onWorld _).bind fun _ => Calm.bind ?_ fun _ => ?_
  · exact Calm.modify (fun _ => rfl) (fun _ => rfl) (fun _ => rfl) (fun _ => rfl) fun _ => rfl
  · exact (Calm.onIndex (evolves_setBlockRefCount _ _)).bind fun _ =>
      Calm.onIndex (evolves_rollbackInsertedLeaf _)

/-- An update of what neither reservations nor the tables of a commit are read from. -/
theorem Gains.of_same {ids : List B} {e : PrefixCacheCoordinator B K R W} (hd : Gains c ids d)
    (hindex : e.prefixCache = d.prefixCache) (hpending : e.pendingBlocks = d.pendingBlocks)
    (hduplicates : e.pendingDuplicateRefs = d.pendingDuplicateRefs) : Gains c ids e where
  blocks id := by
    unfold HasBlock
    rw [hindex]
    exact hd.blocks id
  pending := hpending.trans hd.pending
  duplicates := hduplicates.trans hd.duplicates

/-- What a commit of one block leaves, before its reservation is released. -/
structure CommitLanded (c : PrefixCacheCoordinator B K R W) (r : B × Int)
    (waiting : List (B × Int)) (d : PrefixCacheCoordinator B K R W) : Prop where
  held : Held d [r] waiting
  pending : d.pendingBlocks = c.pendingBlocks

/-- The insertion of a reserved block: it is new, and there is room for it. -/
theorem insertReserved_spec {p : PendingMixedPrefixBlock B K R} {waiting : List (B × Int)}
    (hc : Held c [] (p.reservation :: waiting)) :
    Spec (· = c) (onIndex (insertBlock (p.toBlock c.blockSize)) : CoordinatorM B K R W X _)
      (fun _ d => CommitLanded c p.reservation waiting d ∧ Gains c [p.stableBlockId] d)
      fun e d => CommitLanded c p.reservation waiting d ∧ e.Foreign := by
  have hfresh : c.prefixCache.getBlock p.stableBlockId = none :=
    hc.fresh p.reservation List.mem_cons_self
  refine Spec.zoom fun e heq => ?_
  rw [heq]
  rintro _ rfl
  rcases insertBlock_run hc.indexed (p.toBlock c.blockSize) with ⟨e, he⟩ | ⟨existing, hb, -⟩ |
    ⟨t, ht, hok⟩
  · rw [he]
    refine ⟨⟨hc.land, rfl⟩, fun hfull => ?_, nofun⟩
    obtain ⟨m, hm, hle⟩ := insertBlock_full he hfull
    have hroom := hc.blocks m hm
    rw [List.length_cons] at hroom
    omega
  · exact absurd (hfresh.symm.trans hb) nofun
  · rw [hok]
    refine ⟨⟨Held.insert hc ht, rfl⟩, fun id => ?_, rfl, rfl⟩
    show (t.getBlock id).isSome = true ↔ _
    have hid : (p.toBlock c.blockSize).stableBlockId = p.stableBlockId := rfl
    rw [ht.getBlock, hid, List.mem_singleton]
    by_cases heq : id = p.stableBlockId
    · simp [heq]
    · simp [heq, HasBlock]

/-- **The `try` of `commit_pending_blocks`** inserts the block, or raises something else. -/
theorem commitBlock_spec {seqId : SeqId} {p : PendingMixedPrefixBlock B K R}
    {waiting : List (B × Int)} (hc : Held c [] (p.reservation :: waiting)) :
    Spec (· = c) (commitBlock h seqId p)
      (fun _ d => CommitLanded c p.reservation waiting d ∧ Gains c [p.stableBlockId] d)
      fun e d => CommitLanded c p.reservation waiting d ∧ e.Foreign := by
  have hfresh : c.prefixCache.getBlock p.stableBlockId = none :=
    hc.fresh p.reservation List.mem_cons_self
  unfold commitBlock
  refine Spec.get_bind fun _ heq => ?_
  rw [heq]
  have hnew : ¬ (c.prefixCache.getBlock p.stableBlockId).isSome = true := by
    rw [hfresh]
    exact Bool.false_ne_true
  refine Spec.raiseIf_bind (fun hold => absurd hold hnew) fun _ => ?_
  refine Spec.bind (insertReserved_spec hc) fun _ => ?_
  refine Spec.raiseIf_bind (fun hold => absurd hold hnew) fun _ => ?_
  refine Spec.bind (R := fun _ d => CommitLanded c p.reservation waiting d ∧
    Gains c [p.stableBlockId] d) (Spec.modify ?_) fun _ => ?_
  · rintro d ⟨hd, hgains⟩
    exact ⟨⟨hd.held.of_same rfl rfl rfl rfl, hd.pending⟩, hgains.of_same rfl rfl rfl⟩
  refine Spec.onRaise (R := fun e d => CommitLanded c p.reservation waiting d ∧ e.Foreign) ?_
    fun e => ?_
  · refine Spec.zoom fun d hd => (Spec.trivial _).conseq (fun _ _ => trivial) ?_ ?_
    · exact fun _ _ _ =>
        ⟨⟨hd.1.held.of_same rfl rfl rfl rfl, hd.1.pending⟩, hd.2.of_same rfl rfl rfl⟩
    · exact fun _ _ _ =>
        ⟨⟨hd.1.held.of_same rfl rfl rfl rfl, hd.1.pending⟩, not_false, nofun⟩
  · -- the rollback is calm, and raises only about the index
    apply Spec.intro
    rintro d ⟨hd, hforeign⟩
    have hcalm := Spec.start (calm_rollbackCommitted (h := h) seqId p d)
      (Settles.refl hd.held.indexed)
    refine ((raises_rollbackCommitted seqId p).spec hcalm).conseq (fun _ h => h) ?_ ?_
    · exact fun _ e he => ⟨⟨hd.held.settles he, he.pending.trans hd.pending⟩, hforeign⟩
    · exact fun _ e he => ⟨⟨hd.held.settles he.1, he.1.pending.trans hd.pending⟩, he.2⟩

/-- The handler of a failed commit releases the blocks not yet processed. -/
theorem abandon_spec {seqId : SeqId} {rest : List (PendingMixedPrefixBlock B K R)} {r : B × Int}
    {waiting : List (B × Int)}
    (hd : CommitLanded c r (rest.map PendingMixedPrefixBlock.reservation ++ waiting) d) :
    Spec (· = d) (abandon seqId rest : CoordinatorM B K R W X Unit)
      (fun _ => CommitLanded c r waiting) fun _ _ => False := by
  unfold abandon
  refine Spec.bind (R := fun _ => CommitLanded c r waiting) ((releaseAll_spec rest hd.held).conseq
    (fun _ h => h) (fun _ e he => ⟨he.1, he.2.trans hd.pending⟩) fun _ _ h => h) fun _ => ?_
  exact Spec.modify fun e he => ⟨he.held.of_same rfl rfl rfl rfl, he.pending⟩

/-- The release at the end of a commit of one block. -/
theorem releaseLanded_spec {p : PendingMixedPrefixBlock B K R} {waiting : List (B × Int)}
    (hd : CommitLanded c p.reservation waiting d) :
    Spec (· = d) (releasePending p : CoordinatorM B K R W X Unit)
      (fun _ e => Held e [] waiting ∧ e.prefixCache = d.prefixCache ∧
        e.pendingBlocks = d.pendingBlocks ∧ e.pendingDuplicateRefs = d.pendingDuplicateRefs)
      fun _ _ => False := by
  rintro _ rfl
  rw [show (releasePending p : CoordinatorM B K R W X Unit) _ = _ from
    releasePendingReservation_run (X := X) hd.held]
  exact ⟨hd.held.unreserve, rfl, rfl, rfl⟩

/-- **The loop over the pending blocks of one request**: every reservation ends with its block. -/
theorem commitBlocks_spec {seqId : SeqId} {waiting : List (B × Int)}
    (blocks : List (PendingMixedPrefixBlock B K R))
    (hc : Held c [] (blocks.map PendingMixedPrefixBlock.reservation ++ waiting)) :
    Spec (· = c) (commitBlocks h seqId blocks)
      (fun _ d => Held d [] waiting ∧ Gains c (blocks.map (·.stableBlockId)) d)
      fun e d => (Held d [] waiting ∧ d.pendingBlocks = c.pendingBlocks) ∧ e.Foreign := by
  induction blocks generalizing c with
  | nil =>
    unfold commitBlocks
    refine Spec.pure ?_
    rintro _ rfl
    exact ⟨hc, Gains.refl _⟩
  | cons p rest ih =>
    unfold commitBlocks
    have hwaiting : Held c [] (p.reservation ::
        (rest.map PendingMixedPrefixBlock.reservation ++ waiting)) := hc
    refine Spec.bind (R := fun _ d =>
      Held d [] (rest.map PendingMixedPrefixBlock.reservation ++ waiting) ∧
        Gains c [p.stableBlockId] d) (Spec.andFinally (R := fun _ d =>
      CommitLanded c p.reservation (rest.map PendingMixedPrefixBlock.reservation ++ waiting) d ∧
        Gains c [p.stableBlockId] d) (F := fun e d =>
      CommitLanded c p.reservation waiting d ∧ e.Foreign) ?_ (fun _ => ?_) fun e => ?_) fun _ => ?_
    · refine Spec.onRaise (commitBlock_spec hwaiting) fun e => ?_
      apply Spec.intro
      rintro d ⟨hd, hforeign⟩
      exact (abandon_spec hd).conseq (fun _ h => h) (fun _ _ he => ⟨he, hforeign⟩)
        fun _ _ h => h.elim
    · apply Spec.intro
      rintro d ⟨hd, hgains⟩
      refine (releaseLanded_spec hd).conseq (fun _ h => h) ?_ fun _ _ h => h.elim
      rintro _ e ⟨he, hindex, hpending, hduplicates⟩
      exact ⟨he, hgains.of_same hindex hpending hduplicates⟩
    · apply Spec.intro
      rintro d ⟨hd, hforeign⟩
      refine (releaseLanded_spec hd).conseq (fun _ h => h) ?_ fun _ _ h => h.elim
      rintro _ e ⟨he, -, hpending, -⟩
      exact ⟨⟨he, hpending.trans hd.pending⟩, hforeign⟩
    · apply Spec.intro
      rintro d ⟨hd, hgains⟩
      refine (ih hd).conseq (fun _ h => h) ?_ ?_
      · exact fun _ e he => ⟨he.1, hgains.trans he.2⟩
      · exact fun _ e he => ⟨⟨he.1.1, he.1.2.trans hgains.pending⟩, he.2⟩

/-! ## Duplicate references -/

/-- `pending_duplicate_refs.get(seq_id, [])`. -/
def duplicatesOf (c : PrefixCacheCoordinator B K R W) (seqId : SeqId) : List B :=
  (c.pendingDuplicateRefs.get? seqId).getD []

/-- The ids of `pending_blocks.get(seq_id, [])`. -/
def pendingIdsOf (c : PrefixCacheCoordinator B K R W) (seqId : SeqId) : List B :=
  ((c.pendingBlocks.get? seqId).getD []).map (·.stableBlockId)

/-- Every duplicate reference of the requests of a commit is indexed, or pending with its request
or with one committed before; `committed` are the ids of those before. -/
def Resolvable (c : PrefixCacheCoordinator B K R W) : List B → List SeqId → Prop
  | _, [] => True
  | committed, seqId :: rest =>
    (∀ id ∈ c.duplicatesOf seqId, c.HasBlock id ∨ id ∈ committed ++ c.pendingIdsOf seqId) ∧
      Resolvable c (committed ++ c.pendingIdsOf seqId) rest

instance (c : PrefixCacheCoordinator B K R W) :
    ∀ (committed : List B) (seqs : List SeqId), Decidable (c.Resolvable committed seqs)
  | _, [] => isTrue trivial
  | committed, seqId :: rest =>
    have := instDecidableResolvable c (committed ++ c.pendingIdsOf seqId) rest
    have : ∀ id, Decidable (c.HasBlock id) := fun _ => inferInstanceAs (Decidable (_ = true))
    inferInstanceAs (Decidable (_ ∧ _))

theorem holdMaterializedRef_spec {seqId : SeqId} {id : B} {waiting : List (B × Int)}
    (hc : Held c [] waiting) :
    Spec (· = c) (holdMaterializedRef seqId id : CoordinatorM B K R W X Unit)
      (fun _ d => Held d [] waiting ∧ Gains c [] d)
      fun e d => (Held d [] waiting ∧ d.pendingBlocks = c.pendingBlocks) ∧ e.Foreign := by
  unfold holdMaterializedRef
  refine Spec.get_bind fun _ heq => ?_
  rw [heq]
  refine Spec.ite (fun _ => Spec.pure ?_) fun _ => ?_
  · rintro _ rfl
    exact ⟨hc, Gains.refl _⟩
  refine Spec.bind (R := fun _ d => Held d [] waiting ∧ Gains c [] d) ?_ fun _ => ?_
  · refine Spec.zoom fun e heq => ?_
    rw [heq]
    rintro _ rfl
    rcases acquireBlockRef_retagged (s := c.prefixCache) id with ⟨e, he, hcase⟩ | ⟨t, ht, htags⟩
    · rw [he]
      refine ⟨⟨hc, rfl⟩, ?_⟩
      rcases hcase with rfl | rfl
      · exact ⟨not_false, nofun⟩
      · exact ⟨not_false, nofun⟩
    · rw [ht]
      have hsettles : Settles c { c with prefixCache := t } :=
        ⟨hc.indexed.retagged htags, Shrinks.retagged (fun _ _ h => h.payload) htags, rfl, rfl, rfl,
          rfl⟩
      refine ⟨hc.settles hsettles, fun q => ?_, rfl, rfl⟩
      have hiff := htags.indexed_iff q
      simp only [← Option.isSome_iff_exists] at hiff
      simp only [HasBlock, List.not_mem_nil, or_false]
      exact hiff.symm
  · exact Spec.modify fun d hd => ⟨hd.1.of_same rfl rfl rfl rfl, hd.2.of_same rfl rfl rfl⟩

/-- **Resolving duplicate references** needs them all indexed. -/
theorem resolveDuplicates_spec {seqId : SeqId} {waiting : List (B × Int)} (ids : List B)
    (hc : Held c [] waiting) :
    Spec (· = c) (forEach ids (resolveDuplicate seqId) : CoordinatorM B K R W X Unit)
      (fun _ d => (Held d [] waiting ∧ Gains c [] d) ∧ ∀ id ∈ ids, c.HasBlock id)
      fun e d => (Held d [] waiting ∧ d.pendingBlocks = c.pendingBlocks) ∧
        ¬ e.AboutReservation ∧ (e = .duplicateNotCommitted → ∃ id ∈ ids, ¬ c.HasBlock id) := by
  induction ids generalizing c with
  | nil =>
    refine Spec.pure ?_
    rintro _ rfl
    exact ⟨⟨hc, Gains.refl _⟩, nofun⟩
  | cons id ids ih =>
    unfold forEach resolveDuplicate
    by_cases hid : c.HasBlock id
    · refine Spec.bind (R := fun _ d => Held d [] waiting ∧ Gains c [] d) ?_ fun _ => ?_
      · refine Spec.get_bind fun _ heq => ?_
        rw [heq]
        refine Spec.raiseIf_bind (fun hnone => ?_) fun _ => ?_
        · exact absurd hid (by simpa [HasBlock] using hnone)
        · exact (holdMaterializedRef_spec hc).conseq (fun _ h => h) (fun _ _ h => h)
            fun _ _ h => ⟨h.1, h.2.1, fun heq => absurd heq h.2.2⟩
      · apply Spec.intro
        rintro d ⟨hd, hgains⟩
        have hsame : ∀ q, d.HasBlock q ↔ c.HasBlock q := fun q => by
          rw [hgains.blocks]
          simp
        refine (ih hd).conseq (fun _ h => h) ?_ ?_
        · rintro _ e ⟨⟨he, hgains'⟩, hall⟩
          refine ⟨⟨he, hgains.trans hgains'⟩, List.forall_mem_cons.mpr ⟨hid, fun q hq => ?_⟩⟩
          exact (hsame q).mp (hall q hq)
        · rintro e f ⟨⟨hf, hpending⟩, hres, hdup⟩
          refine ⟨⟨hf, hpending.trans hgains.pending⟩, hres, fun heq => ?_⟩
          obtain ⟨q, hq, hno⟩ := hdup heq
          exact ⟨q, List.mem_cons_of_mem id hq, fun h => hno ((hsame q).mpr h)⟩
    · have hnone : (c.prefixCache.getBlock id).isNone = true := by simpa [HasBlock] using hid
      refine Spec.bind (R := fun _ _ => False) ?_ fun _ => fun _ h => h.elim
      refine Spec.get_bind fun _ heq => ?_
      rw [heq]
      refine Spec.raiseIf_bind (fun _ => ?_) fun hsome => absurd hnone hsome
      rintro _ rfl
      exact ⟨⟨hc, rfl⟩, not_false, fun _ => ⟨id, List.mem_cons_self, hid⟩⟩

/-- What a commit leaves of the tables of one request. -/
structure SeqCommitted (c : PrefixCacheCoordinator B K R W) (seqId : SeqId)
    (d : PrefixCacheCoordinator B K R W) : Prop where
  resting : Resting d
  blocks : ∀ id, d.HasBlock id ↔ c.HasBlock id ∨ id ∈ c.pendingIdsOf seqId
  pending : d.pendingBlocks = c.pendingBlocks.pop seqId
  duplicates : d.pendingDuplicateRefs = c.pendingDuplicateRefs.pop seqId

/-- The duplicate references of one request are indexed or pending with it. -/
def SeqResolvable (c : PrefixCacheCoordinator B K R W) (seqId : SeqId) : Prop :=
  ∀ id ∈ c.duplicatesOf seqId, c.HasBlock id ∨ id ∈ c.pendingIdsOf seqId

/-- **The pass of a commit for one request.** -/
theorem commitSeq_spec {seqId : SeqId} (hc : Resting c) :
    Spec (· = c) (commitSeq h seqId)
      (fun _ d => SeqCommitted c seqId d ∧ SeqResolvable c seqId)
      fun e d => Resting d ∧ ¬ e.AboutReservation ∧
        (e = .duplicateNotCommitted → ¬ SeqResolvable c seqId) := by
  unfold commitSeq
  refine Spec.get_bind fun _ heq => ?_
  rw [heq]
  -- the pending blocks leave the table, and the commit moves their reservations
  refine Spec.bind (R := fun _ d => Held d [] (((c.pendingBlocks.get? seqId).getD []).map
      PendingMixedPrefixBlock.reservation ++ d.reserved) ∧ d.prefixCache = c.prefixCache ∧
      d.pendingBlocks = c.pendingBlocks.pop seqId ∧
      d.pendingDuplicateRefs = c.pendingDuplicateRefs) (Spec.modify fun _ _ => ?_) fun _ => ?_
  · exact ⟨hc.pop rfl rfl rfl rfl rfl, rfl, rfl, rfl⟩
  apply Spec.intro
  rintro d ⟨hd, hindex, hpending, hduplicates⟩
  have hrest : ∀ {e : PrefixCacheCoordinator B K R W}, Held e [] d.reserved →
      e.pendingBlocks = d.pendingBlocks → Resting e := by
    intro e he heq
    have hreserved : e.reserved = d.reserved := by
      unfold PrefixCacheCoordinator.reserved PrefixCacheCoordinator.pending
      rw [heq]
    unfold Resting
    rw [hreserved]
    exact he
  have hhas : ∀ {e : PrefixCacheCoordinator B K R W},
      Gains d (((c.pendingBlocks.get? seqId).getD []).map (·.stableBlockId)) e →
      ∀ id, e.HasBlock id ↔ c.HasBlock id ∨ id ∈ c.pendingIdsOf seqId := by
    intro e he id
    rw [he.blocks]
    unfold HasBlock
    rw [hindex]
    rfl
  refine Spec.bind ((commitBlocks_spec _ hd).conseq (fun _ h => h) (fun _ _ h => h)
    fun _ e he => ⟨hrest he.1.1 he.1.2, he.2.1, fun heq => absurd heq he.2.2⟩) fun _ => ?_
  refine Spec.get_bind fun e he => ?_
  obtain ⟨heheld, hegains⟩ := he
  have hdups : (e.pendingDuplicateRefs.get? seqId).getD [] = c.duplicatesOf seqId := by
    rw [hegains.duplicates, hduplicates]
    rfl
  refine Spec.bind (R := fun _ f => Held f [] d.reserved ∧ f.prefixCache = e.prefixCache ∧
      f.pendingBlocks = e.pendingBlocks ∧
      f.pendingDuplicateRefs = e.pendingDuplicateRefs.pop seqId) (Spec.modify fun _ _ => ?_)
    fun _ => ?_
  · exact ⟨heheld.of_same rfl rfl rfl rfl, rfl, rfl, rfl⟩
  apply Spec.intro
  rintro f ⟨hf, hfindex, hfpending, hfduplicates⟩
  have hfhas : ∀ id, f.HasBlock id ↔ c.HasBlock id ∨ id ∈ c.pendingIdsOf seqId := by
    intro id
    rw [← hhas hegains id]
    unfold HasBlock
    rw [hfindex]
  rw [hdups]
  refine (resolveDuplicates_spec (c.duplicatesOf seqId) hf).conseq (fun _ h => h) ?_ ?_
  · rintro _ g ⟨⟨hg, hgains⟩, hall⟩
    have hgpending : g.pendingBlocks = d.pendingBlocks :=
      hgains.pending.trans (hfpending.trans hegains.pending)
    refine ⟨⟨hrest hg hgpending, fun id => ?_, hgpending.trans hpending, ?_⟩,
      fun id hid => (hfhas id).mp (hall id hid)⟩
    · rw [hgains.blocks, hfhas]
      simp
    · rw [hgains.duplicates, hfduplicates, hegains.duplicates, hduplicates]
  · rintro e' g ⟨⟨hg, hgpending⟩, hres, hdup⟩
    refine ⟨hrest hg (hgpending.trans (hfpending.trans hegains.pending)), hres, fun heq hall => ?_⟩
    obtain ⟨id, hid, hno⟩ := hdup heq
    exact hno ((hfhas id).mpr (hall id hid))

/-- A commit part way, with the ids committed so far. -/
structure Committed (c : PrefixCacheCoordinator B K R W) (committed : List B)
    (d : PrefixCacheCoordinator B K R W) : Prop where
  resting : Resting d
  blocks : ∀ id, d.HasBlock id ↔ c.HasBlock id ∨ id ∈ committed
  pending : ∀ q, d.pendingIdsOf q = c.pendingIdsOf q ∨
    d.pendingIdsOf q = [] ∧ ∀ id ∈ c.pendingIdsOf q, id ∈ committed
  duplicates : ∀ q, d.duplicatesOf q = c.duplicatesOf q ∨
    d.duplicatesOf q = [] ∧ ∀ id ∈ c.duplicatesOf q, c.HasBlock id ∨ id ∈ committed

theorem Committed.start (hc : Resting c) : Committed c [] c :=
  ⟨hc, fun id => by simp, fun _ => Or.inl rfl, fun _ => Or.inl rfl⟩

/-- What the request has pending, after the commits before. -/
theorem Committed.pendingIds {committed : List B} (hd : Committed c committed d) (seqId : SeqId)
    (id : B) : d.HasBlock id ∨ id ∈ d.pendingIdsOf seqId ↔
      c.HasBlock id ∨ id ∈ committed ++ c.pendingIdsOf seqId := by
  rw [hd.blocks, List.mem_append, or_assoc]
  rcases hd.pending seqId with heq | ⟨hnil, hall⟩
  · rw [heq]
  · rw [hnil]
    have := hall id
    simp only [List.not_mem_nil, or_false]
    tauto

theorem Committed.resolvable {committed : List B} (hd : Committed c committed d)
    (seqId : SeqId) : SeqResolvable d seqId ↔
      ∀ id ∈ c.duplicatesOf seqId, c.HasBlock id ∨ id ∈ committed ++ c.pendingIdsOf seqId := by
  unfold SeqResolvable
  simp only [hd.pendingIds seqId]
  rcases hd.duplicates seqId with heq | ⟨hnil, hall⟩
  · rw [heq]
  · rw [hnil]
    refine ⟨fun _ id hid => ?_, fun _ id hid => absurd hid List.not_mem_nil⟩
    exact (hall id hid).imp_right fun h => List.mem_append_left _ h

theorem Committed.step {committed : List B} {seqId : SeqId}
    {e : PrefixCacheCoordinator B K R W} (hd : Committed c committed d)
    (he : SeqCommitted d seqId e) (hres : SeqResolvable d seqId) :
    Committed c (committed ++ c.pendingIdsOf seqId) e where
  resting := he.resting
  blocks id := by rw [he.blocks, hd.pendingIds]
  pending q := by
    have hq : e.pendingIdsOf q = if q = seqId then [] else d.pendingIdsOf q := by
      unfold pendingIdsOf
      rw [he.pending, Dict.get?_pop]
      split <;> rfl
    rw [hq]
    by_cases hseq : q = seqId
    · subst q
      exact Or.inr ⟨if_pos rfl, fun id hid => List.mem_append_right _ hid⟩
    · rw [if_neg hseq]
      exact (hd.pending q).imp_right fun h =>
        ⟨h.1, fun id hid => List.mem_append_left _ (h.2 id hid)⟩
  duplicates q := by
    have hq : e.duplicatesOf q = if q = seqId then [] else d.duplicatesOf q := by
      unfold duplicatesOf
      rw [he.duplicates, Dict.get?_pop]
      split <;> rfl
    rw [hq]
    by_cases hseq : q = seqId
    · subst q
      exact Or.inr ⟨if_pos rfl, (hd.resolvable _).mp hres⟩
    · rw [if_neg hseq]
      exact (hd.duplicates q).imp_right fun h =>
        ⟨h.1, fun id hid => (h.2 id hid).imp_right fun h => List.mem_append_left _ h⟩

/-- **`commit_pending_blocks`** keeps the reservations with the pending blocks, raises nothing
about them, and resolves the duplicate references just when they are resolvable. -/
theorem commitPendingBlocks_spec {committed : List B} (seqs : List SeqId)
    (hd : Committed c committed d) :
    Spec (· = d) (commitPendingBlocks h seqs)
      (fun _ e => Resting e ∧ c.Resolvable committed seqs)
      fun e f => Resting f ∧ ¬ e.AboutReservation ∧
        (e = .duplicateNotCommitted → ¬ c.Resolvable committed seqs) := by
  unfold commitPendingBlocks
  induction seqs generalizing d committed with
  | nil =>
    refine Spec.pure ?_
    rintro _ rfl
    exact ⟨hd.resting, trivial⟩
  | cons seqId seqs ih =>
    unfold forEach Resolvable
    refine Spec.bind ((commitSeq_spec hd.resting).conseq (fun _ h => h) (fun _ _ h => h) ?_)
      fun _ => ?_
    · rintro e f ⟨hf, hres, hdup⟩
      exact ⟨hf, hres, fun heq hall => hdup heq ((hd.resolvable seqId).mpr hall.1)⟩
    · apply Spec.intro
      rintro e ⟨he, hseq⟩
      refine (ih (hd.step he hseq)).conseq (fun _ h => h) ?_ ?_
      · exact fun _ f hf => ⟨hf.1, (hd.resolvable seqId).mp hseq, hf.2⟩
      · exact fun _ f hf => ⟨hf.1, hf.2.1, fun heq hall => hf.2.2 heq hall.2⟩

/-! ## Runs -/

/-- A call on the coordinator or on what it shares. -/
inductive CoordinatorCall (B K R W : Type) where
  | recordStepTokens (fuel : Nat) (seqs : List (SeqId × Sequence B)) (isPrefill : Bool)
  | commitPendingBlocks (seqs : List SeqId)
  | releaseSeq (fuel : Nat) (seqId : SeqId)
  /-- The end of `_attach_seq`. -/
  | attachedHit (seqId : SeqId) (chain : List B)
  /-- A call on the index from elsewhere; only a commit inserts. -/
  | onIndex (op : IndexOp B (MixedPrefixBlockPayload K R)) (other : ∀ block, op ≠ .insert block)
  /-- A change of the components, and of the candidates by a free elsewhere. -/
  | elsewhere (world : W) (writeThroughCandidates : List B)

/-- A call leaves the state its method leaves, returning or raising. -/
def CoordinatorCall.exec (h : Components B K R W X) :
    CoordinatorCall B K R W → PrefixCacheCoordinator B K R W → PrefixCacheCoordinator B K R W
  | .recordStepTokens fuel seqs isPrefill, c =>
    stateAfter (PrefixCacheCoordinator.recordStepTokens h fuel seqs isPrefill) c
  | .commitPendingBlocks seqs, c => stateAfter (PrefixCacheCoordinator.commitPendingBlocks h seqs) c
  | .releaseSeq fuel seqId, c => stateAfter (PrefixCacheCoordinator.releaseSeq h fuel seqId) c
  | .attachedHit seqId chain, c =>
    { c with seqIdToPrefixBlocks := c.seqIdToPrefixBlocks.set seqId chain }
  | .onIndex op _, c => { c with prefixCache := op.exec c.prefixCache }
  | .elsewhere world candidates, c =>
    { c with world := world, writeThroughCandidates := candidates }

/-- `PrefixCacheCoordinator.__init__`. -/
def initial (blockSize : Nat) (maxBlocks : Option Nat) (maxRecurrentBytes : Nat) (world : W) :
    PrefixCacheCoordinator B K R W where
  blockSize := blockSize
  maxRecurrentBytes := maxRecurrentBytes
  prefixCache := RadixPrefixIndex.initial blockSize maxBlocks
  world := world

theorem resting_initial (blockSize : Nat) (maxBlocks : Option Nat) (maxRecurrentBytes : Nat)
    (world : W) :
    Resting (initial blockSize maxBlocks maxRecurrentBytes world :
      PrefixCacheCoordinator B K R W) where
  indexed := indexed_initial blockSize maxBlocks
  live id b hb := by cases hb
  ids := rfl
  nodup := List.nodup_nil
  bytes := rfl
  nonneg := nofun
  fresh := nofun
  blocks m _ := Nat.zero_le m
  budget := Int.natCast_nonneg maxRecurrentBytes

theorem CoordinatorCall.resting (hc : Resting c) (call : CoordinatorCall B K R W) :
    Resting (call.exec h c) := by
  cases call with
  | recordStepTokens fuel seqs isPrefill =>
    exact (recordStepTokens_resting fuel seqs isPrefill).stateAfter hc
  | commitPendingBlocks seqs =>
    refine Spec.stateAfter (P := (· = c)) (I := Resting) ?_ rfl
    exact (commitPendingBlocks_spec seqs (Committed.start hc)).conseq (fun _ h => h)
      (fun _ _ hd => hd.1) fun _ _ hd => hd.1
  | releaseSeq fuel seqId => exact (releaseSeq_resting fuel seqId).stateAfter hc
  | attachedHit seqId chain => exact hc.settles ⟨hc.indexed, Shrinks.refl _, rfl, rfl, rfl, rfl⟩
  | onIndex op other =>
    exact hc.settles ⟨(op.outcome hc.indexed).indexed hc.indexed, op.shrinks hc.indexed other,
      rfl, rfl, rfl, rfl⟩
  | elsewhere world candidates =>
    exact hc.settles ⟨hc.indexed, Shrinks.refl _, rfl, rfl, rfl, rfl⟩

/-- The reservations are those of the pending blocks, and within both budgets. -/
structure ReservationsExact (c : PrefixCacheCoordinator B K R W) : Prop where
  ids : c.pendingBlockIds = (c.pending.map (·.stableBlockId)).toFinset
  once : (c.pending.map (·.stableBlockId)).Nodup
  bytes : c.pendingRecurrentBytes = (c.pending.map (·.payload.recurrentBytes)).sum
  fresh : ∀ id ∈ c.pendingBlockIds, c.prefixCache.getBlock id = none
  blocks : ∀ maxBlocks, c.prefixCache.maxBlocks = some maxBlocks →
    c.prefixCache.blocks.entries.length + c.pendingBlockIds.card ≤ maxBlocks
  budget : c.liveRecurrentBytes + c.pendingRecurrentBytes ≤ c.maxRecurrentBytes

theorem Resting.exact (hc : Resting c) : ReservationsExact c := by
  have hids : c.reserved.map Prod.fst = c.pending.map (·.stableBlockId) := by
    unfold PrefixCacheCoordinator.reserved
    rw [List.map_map]
    rfl
  have hbytes : c.reserved.map Prod.snd = c.pending.map (·.payload.recurrentBytes) := by
    unfold PrefixCacheCoordinator.reserved
    rw [List.map_map]
    rfl
  have hheld : Held c [] c.reserved := hc
  refine ⟨hids ▸ hheld.ids, hids ▸ hheld.nodup, hbytes ▸ hheld.bytes, fun id hid => ?_, ?_, ?_⟩
  · rw [hheld.ids] at hid
    obtain ⟨r, hr, rfl⟩ := List.mem_map.mp (List.mem_toFinset.mp hid)
    exact hheld.fresh r hr
  · intro maxBlocks hmax
    rw [hheld.card]
    exact hheld.blocks maxBlocks hmax
  · rw [hheld.bytes]
    exact hheld.budget

/-- **In every state of every run the reservations are exact and within budget**, whatever fails,
and a commit there raises nothing about budgets, duplicate blocks or reservations. It resolves its
duplicate references when they are resolvable, and returns only then. -/
theorem reservations_exact {blockSize : Nat} {maxBlocks : Option Nat} {maxRecurrentBytes : Nat}
    {world : W} (run : Reachable (CoordinatorCall.exec h) (fun _ _ => True)
      (initial blockSize maxBlocks maxRecurrentBytes world) c) (seqs : List SeqId) :
    ReservationsExact c ∧
      (∀ e, raises (commitPendingBlocks h seqs) c = some e → ¬ e.AboutReservation) ∧
      (c.Resolvable [] seqs →
        raises (commitPendingBlocks h seqs) c ≠ some .duplicateNotCommitted) ∧
      (raises (commitPendingBlocks h seqs) c = none → c.Resolvable [] seqs) := by
  have hc : Resting c := run.invariant
    (resting_initial blockSize maxBlocks maxRecurrentBytes world) fun t call ht _ => call.resting ht
  have hcommit := commitPendingBlocks_spec (h := h) seqs (Committed.start hc) c rfl
  refine ⟨hc.exact, fun e he => ?_, fun hres hraise => ?_, fun hnone => ?_⟩
  · obtain ⟨d, hd⟩ := raises_eq_some.mp he
    rw [hd] at hcommit
    exact hcommit.2.1
  · obtain ⟨d, hd⟩ := raises_eq_some.mp hraise
    rw [hd] at hcommit
    exact hcommit.2.2 rfl hres
  · unfold raises at hnone
    cases hrun : commitPendingBlocks h seqs c with
    | ok a d =>
      rw [hrun] at hcommit
      exact hcommit.2
    | error e d =>
      rw [hrun] at hnone
      cases hnone

/-! ## A step that fails -/

/-- Components that build no KV payload for request 3; an id spells the tokens of its path. -/
def unbuildable : Components Nat Unit Unit Unit Unit where
  stableBlockId tokens parent := tokens.foldl (fun id token => 10 * id + token.toNat) (parent.getD 0)
  prefixRecurrentSnapshotNbytes := pure 1
  buildPrefixKvPayload seqId _ _ := if seqId = 3 then throw () else pure ()
  buildPrefixRecurrentPayload _ _ := pure ()
  prefixRecurrentPayloadNbytes _ := pure 1
  prefixKvPayloadNbytes _ := pure 1
  markMaterializedPrefixKvPayload _ _ := pure ()
  rollbackMaterializedPrefixKvPayload _ _ := pure ()
  freePrefixKvPayload _ := pure ()
  freePrefixKvPayloadDevice _ := pure ()
  offloadEnabled := false
  freeDeviceRecurrent _ := pure ()
  clearLayerStates _ w := w
  freeHostPayloads _ := pure ()
  hostFreeBlocks _ := 0
  isStreamCapturing _ := false
  poll _ w := ⟨[], .ok (), w⟩
  waitOldestD2h _ w := ⟨[], .ok false, w⟩
  submitD2h _ _ w := ⟨[], .ok (), w⟩

/-- A request at its first chunk, of one token. -/
def firstChunk (tokenIds : List Nat) : Sequence Nat :=
  { Sequence.ofPrompt tokenIds with currentChunkSize := some 1 }

/-- Requests 1 and 3 record in one step, which fails at request 3; in the next step request 2
records the block that request 1 has pending. -/
def failedStep : List (CoordinatorCall Nat Unit Unit Unit) :=
  [.recordStepTokens 1 [(1, firstChunk [7, 8]), (3, firstChunk [9, 8])] true,
    .recordStepTokens 1 [(2, firstChunk [7, 5])] true]

/-- The state before the commit of that step. -/
def afterFailedStep : PrefixCacheCoordinator Nat Unit Unit Unit :=
  runAll (CoordinatorCall.exec unbuildable) (initial 1 (some 4) 100 ()) failedStep

theorem afterFailedStep_reachable :
    Reachable (CoordinatorCall.exec unbuildable) (fun _ _ => True) (initial 1 (some 4) 100 ())
      afterFailedStep :=
  Reachable.init.runAll ⟨trivial, trivial, trivial⟩

/-- Request 1 is not part of the commit, so the reference of request 2 is not indexed. -/
theorem duplicate_not_committed :
    Reachable (CoordinatorCall.exec unbuildable) (fun _ _ => True) (initial 1 (some 4) 100 ())
        afterFailedStep ∧
      raises (commitPendingBlocks unbuildable [2]) afterFailedStep =
        some .duplicateNotCommitted :=
  ⟨afterFailedStep_reachable, by decide +kernel⟩

/-- Committed with request 1 before it, the reference is. -/
theorem reservations_exact_failedStep :
    ReservationsExact afterFailedStep ∧
      raises (commitPendingBlocks unbuildable [1, 2]) afterFailedStep ≠
        some .duplicateNotCommitted :=
  have h := reservations_exact afterFailedStep_reachable [1, 2]
  ⟨h.1, h.2.2.1 (by decide +kernel)⟩

end PrefixCacheCoordinator

end SparseVllm.Mixed
