import TieredStore.BufferManager.Placement

namespace TieredStore.BufferManager

open List Op State

open Function (update update_self update_of_ne)

variable {Data : Type} {cfg : Config Data} {s s' : State Data} {frame : BufferFrame Data}
  {t : ThreadId} {pid : Pid} {bf : FrameId}

section Resolve

variable {t : ThreadId} {pid : Pid} {e : EntryId} {bf : FrameId} {op : Op}
  {involved : List Place}

theorem State.IoInv.ready_of_loader (io : s.IoInv) {stage : LoadStage}
    (isLoading : s.threads t = .loading stage pid e bf) :
    s.ioTable pid = some e ∧ s.ready pid = none := by
  obtain ⟨present, -, isLoader⟩ := io.partOf isLoading (if_pos ⟨rfl, rfl⟩)
  have entryInv := io.entry pid e present
  have evicted := entryInv.evicted_of_loader isLoader
  obtain ⟨_, -, pending, -⟩ := entryInv
  refine ⟨present, ?_⟩
  rw [ready_of_present present]
  exact ((pending evicted).of_loader isLoader).2.1

theorem Moves.stayOp (same : op.holding = (s.threads t).holding)
    (threads : s'.threads = update s.threads t op)
    (free : s'.free = s.free) (batches : s'.batches = s.batches)
    (swips : s'.swips = s.swips) (ready : ∀ pid, s'.ready pid = s.ready pid)
    (headers : ∀ bf, (s'.frames bf).state = (s.frames bf).state ∧
      (s'.frames bf).pid = (s.frames bf).pid) : Moves s s' [] [] := by
  refine .stay (fun place => holding_others (fun _ _ => by rw [free])
    (fun _ _ => by rw [batches]) (fun other _ => ?_) (fun _ _ => by rw [swips])
    (fun pid _ => ready pid) place not_mem_nil) headers
  rw [threads]
  exact update_view Op.holding same other

theorem State.headers_same (frames : s'.frames = update s.frames bf frame)
    (header : frame.state = (s.frames bf).state ∧ frame.pid = (s.frames bf).pid) (other : FrameId) :
    (s'.frames other).state = (s.frames other).state ∧
      (s'.frames other).pid = (s.frames other).pid := by
  rw [frames]
  exact ⟨update_view BufferFrame.state header.1 other, update_view BufferFrame.pid header.2 other⟩

theorem holding_outside {threads : ThreadId → Op}
    (isInvolved : Place.op t ∈ involved) (other : ThreadId) (outside : Place.op other ∉ involved) :
    (update threads t op other).holding = (threads other).holding :=
  congrArg Op.holding (update_outside isInvolved other outside)

theorem State.ready_insertEntry (io : s.IoInv) (absent : s.ioTable pid = none)
    {ioFrame : IOFrame} (noFrame : ioFrame.bf = none)
    (ioTable : s'.ioTable = update s.ioTable pid (some s.nextEntry))
    (entries : s'.entries = update s.entries s.nextEntry ioFrame) (pid' : Pid) :
    s'.ready pid' = s.ready pid' := by
  by_cases same : pid' = pid
  · subst same
    rw [ready_of_absent absent, ready_of_present (by rw [ioTable, update_self]),
      entries, update_self, noFrame]
  · rw [ready, ready, ioTable, update_of_ne same, entries]
    cases present : s.ioTable pid' with
    | none => rfl
    | some e' =>
      simp only [Option.bind_some]
      rw [update_of_ne (ne_of_lt (io.fresh pid' e' present))]

def popPush (free : FreeListId → List FrameId) (dram cxl : Nat) (rest : List FrameId)
    (bf : FrameId) : FreeListId → List FrameId :=
  update (update free ⟨.dram, dram⟩ rest) ⟨.cxl, cxl⟩ (bf :: update free ⟨.dram, dram⟩ rest
    ⟨.cxl, cxl⟩)

section PopPush

variable (free : FreeListId → List FrameId) (dram cxl : Nat) (rest : List FrameId)
  (bf : FrameId)

theorem popPush_dram : popPush free dram cxl rest bf ⟨.dram, dram⟩ = rest := by
  rw [popPush, update_of_ne (by simp), update_self]

theorem popPush_cxl : popPush free dram cxl rest bf ⟨.cxl, cxl⟩ = bf :: free ⟨.cxl, cxl⟩ := by
  rw [popPush, update_self, update_of_ne (by simp)]

theorem popPush_outside (isPopped : Place.free ⟨.dram, dram⟩ ∈ involved)
    (isPushed : Place.free ⟨.cxl, cxl⟩ ∈ involved) (list : FreeListId)
    (outside : Place.free list ∉ involved) : popPush free dram cxl rest bf list = free list :=
  (update_outside isPushed list outside).trans (update_outside isPopped list outside)

end PopPush

theorem Moves.swizzle (placed : s.Placed)
    (isInstalling : s.threads t = .loading .installing pid e bf)
    (isEvicted : s.swips pid = some .evicted) (threads : s'.threads = update s.threads t .idle)
    (free : s'.free = s.free) (batches : s'.batches = s.batches)
    (swips : s'.swips = update s.swips pid (some (.hot bf)))
    (frames : s'.frames = update s.frames bf { s.frames bf with state := .hot })
    (ready : ∀ pid, s'.ready pid = s.ready pid) : Moves s s' [.op t, .swip pid] [] := by
  have loaded : (s.frames bf).state = .loaded ∧ (s.frames bf).pid = pid :=
    placed.op isInstalling (mem_singleton_self bf)
  refine .carry (by simp) (holding_op isInstalling rfl)
    (by rw [holding_evicted isEvicted]) (holding_op (by rw [threads, update_self]) rfl)
    (holding_hot (by rw [swips, update_self])) frames ⟨rfl, loaded.2⟩
    (holding_others (fun _ _ => by rw [free]) (fun _ _ => by rw [batches])
      (fun other outside => ?_) (fun other outside => ?_) (fun pid _ => ready pid))
  · rw [threads, update_outside (by simp) other outside]
  · rw [swips, update_outside (by simp) other outside]

theorem Moves.takeReady (placed : s.Placed) (io : s.IoInv)
    (present : s.ioTable pid = some e) (hasFrame : (s.entries e).bf = some bf)
    (isEvicted : s.swips pid = some .evicted)
    (threads : s'.threads = s.threads) (free : s'.free = s.free) (batches : s'.batches = s.batches)
    (swips : s'.swips = update s.swips pid (some (.hot bf))) (frames : s'.frames =
      update s.frames bf { (s.frames bf).unlock with state := .hot })
    (ioTable : ∀ pid', pid' ≠ pid → s'.ioTable pid' = s.ioTable pid')
    (entries : ∀ e', e' ≠ e → s'.entries e' = s.entries e')
    (taken : s'.ready pid = none) : Moves s s' [.ready pid, .swip pid] [] := by
  have isReady : s.ready pid = some bf := by rw [ready_of_present present, hasFrame]
  refine .carry (by simp) (holding_ready isReady)
    (by rw [holding_evicted isEvicted]) (holding_notReady taken)
    (holding_hot (by rw [swips, update_self])) frames ⟨rfl, (placed.loaded isReady).2⟩
    (holding_others (fun _ _ => by rw [free]) (fun _ _ => by rw [batches])
      (fun _ _ => by rw [threads]) (fun other outside => ?_) (fun other outside => ?_))
  · rw [swips, update_outside (by simp) other outside]
  · exact ready_other io present ioTable entries other fun same => outside (by simp [same])

end Resolve

theorem ResolveStep.moves {a : ResolveAction} (placed : s.Placed) (io : s.IoInv)
    (taken : ResolveStep cfg s a s') : ∃ involved, Moves s s' involved [] := by
  cases taken with
  | @warm parent pid bf isCool =>
    exact ⟨_, .rehead (holding_cool isCool) (holding_hot (update_self _ _ _)) rfl
      ⟨rfl, (placed.cool isCool).2⟩
      (holding_others (fun _ _ => rfl) (fun _ _ => rfl) (fun _ _ => rfl)
        (update_outside (by simp)) (fun _ _ => rfl))⟩
  | @miss t pid partition bf rest isIdle isEvicted absent isFree =>
    refine ⟨[.free ⟨.cxl, partition⟩, .op t], .pop placed (by simp)
      (holding_free isFree) (by rw [holding_op isIdle rfl]; rfl)
      (holding_free (update_self _ _ _)) (holding_op (update_self _ _ _) rfl) rfl
      (holding_others (update_outside (by simp)) (fun _ _ => rfl)
        (holding_outside (by simp)) (fun _ _ => rfl) (fun other _ => ?_))⟩
    exact ready_insertEntry io absent rfl rfl rfl other
  | @readPage t pid e bf isReading =>
    refine ⟨[.op t], .rehead (holding_op isReading rfl) (holding_op (update_self _ _ _) rfl) rfl ?_
      (holding_others (fun _ _ => rfl) (fun _ _ => rfl) (holding_outside (by simp))
        (fun _ _ => rfl) (fun _ _ => rfl))⟩
    exact ⟨rfl, rfl⟩
  | @redirect t dramPartition cxlPartition pid e bf _ rest isLoaded isFree =>
    refine ⟨[.free ⟨.dram, dramPartition⟩, .op t, .free ⟨.cxl, cxlPartition⟩],
      .replace placed (by simp) (holding_free isFree) (holding_op isLoaded rfl)
      (holding_free rfl) (holding_free ?_)
      (holding_op (update_self _ _ _) rfl) (holding_free ?_) rfl ?_ rfl
      (holding_others ?_ (fun _ _ => rfl) (holding_outside (by simp))
        (fun _ _ => rfl) (fun other _ => ?_))⟩
    · exact popPush_dram s.free dramPartition cxlPartition rest bf
    · exact popPush_cxl s.free dramPartition cxlPartition rest bf
    · exact ⟨rfl, rfl⟩
    · exact popPush_outside s.free dramPartition cxlPartition rest bf (by simp) (by simp)
    · apply ready_setEntry <;> rfl
  | @keep t dramPartition pid e bf isLoaded =>
    exact ⟨[], .stayOp (by rw [isLoaded]; rfl) rfl rfl rfl rfl (ready_setEntry rfl rfl rfl)
      fun _ => ⟨rfl, rfl⟩⟩
  | @swizzleLast t parent pid e bf isInstalling isEvicted =>
    obtain ⟨present, notReady⟩ := io.ready_of_loader isInstalling
    refine ⟨_, .swizzle placed isInstalling isEvicted rfl rfl rfl rfl rfl fun other => ?_⟩
    by_cases same : other = pid
    · subst same
      exact (ready_of_absent (update_self _ _ _)).trans notReady.symm
    · exact ready_other io present (fun _ ne => update_of_ne ne _ _)
        (fun _ ne => update_of_ne ne _ _) other same
  | @swizzle t parent pid e bf isInstalling isEvicted =>
    exact ⟨_, .swizzle placed isInstalling isEvicted rfl rfl rfl rfl rfl
      (ready_setEntry rfl rfl rfl)⟩
  | @publish t pid e bf isInstalling =>
    obtain ⟨present, notReady⟩ := io.ready_of_loader isInstalling
    have loaded : (s.frames bf).state = .loaded ∧ (s.frames bf).pid = pid :=
      placed.op isInstalling (mem_singleton_self bf)
    refine ⟨[.op t, .ready pid], .carry (by simp) (holding_op isInstalling rfl)
      (by rw [holding_notReady notReady]) (holding_op (update_self _ _ _) rfl)
      (holding_ready ?_) (Function.update_eq_self bf s.frames).symm loaded
      (holding_others (fun _ _ => rfl) (fun _ _ => rfl) (holding_outside (by simp))
        (fun _ _ => rfl) (fun other outside => ?_))⟩
    · apply ready_entry
      · exact present
      · exact update_self _ _ _
      · rfl
    · have ne : other ≠ pid := fun same => outside (by simp [same])
      apply ready_other io present
      · exact fun _ _ => rfl
      · exact fun _ ne => update_of_ne ne _ _
      · exact ne
  | @wait t pid e isIdle =>
    exact ⟨[], .stayOp (by rw [isIdle]; rfl) rfl rfl rfl rfl (ready_setEntry rfl rfl rfl)
      fun _ => ⟨rfl, rfl⟩⟩
  | @wakeLast t pid e isWaiting | @wake t pid e isWaiting =>
    exact ⟨[], .stayOp (by rw [isWaiting]; rfl) rfl rfl rfl rfl
      (ready_setEntry rfl rfl rfl) fun _ => ⟨rfl, rfl⟩⟩
  | @leaveLast t pid e isLeaving =>
    obtain ⟨present, -, isLeaver⟩ := io.partOf isLeaving (if_pos ⟨rfl, rfl⟩)
    obtain ⟨-, noFrame, -⟩ := (io.entry pid e present).leaver isLeaver
    refine ⟨[], .stayOp (by rw [isLeaving]; rfl) rfl rfl rfl rfl (fun other => ?_)
      fun _ => ⟨rfl, rfl⟩⟩
    by_cases same : other = pid
    · subst same
      rw [ready_of_present present, noFrame]
      exact ready_of_absent (update_self _ _ _)
    · apply ready_other io present
      · exact fun _ ne => update_of_ne ne _ _
      · exact fun _ _ => rfl
      · exact same
  | @leave t pid e isLeaving =>
    exact ⟨[], .stayOp (by rw [isLeaving]; rfl) rfl rfl rfl rfl (fun _ => rfl) fun _ => ⟨rfl, rfl⟩⟩
  | @takeReadyLast parent pid e bf present hasFrame isEvicted =>
    exact ⟨_, .takeReady placed io present hasFrame isEvicted rfl rfl rfl rfl rfl
      (fun _ ne => update_of_ne ne _ _)
      (fun _ ne => update_of_ne ne _ _)
      (ready_of_absent (update_self _ _ _))⟩
  | @takeReady parent pid e bf present hasFrame isEvicted =>
    refine ⟨_, .takeReady placed io present hasFrame isEvicted rfl rfl rfl rfl rfl
      (fun _ _ => rfl) (fun _ ne => update_of_ne ne _ _) ?_⟩
    apply ready_entry
    · exact present
    · exact update_self _ _ _
    · rfl
  | @dropDeleted pid e present isEvicted isDeleted =>
    exact absurd isDeleted ((io.entry pid e present).not_toDelete isEvicted)

theorem Moves.evict (placed : s.Placed) (isCool : s.swips pid = some (.cool bf))
    (nothing : (s.threads t).holding = ⟨[], .free⟩) :
    Moves s (s.evictFrame t bf pid) [.swip pid, .batch ⟨t, .cxl⟩] [] := by
  refine .push placed (by simp) (holding_cool isCool) (holding_batch rfl)
    (holding_evicted (update_self _ _ _)) (holding_batch (update_self _ _ _)) rfl rfl
    (holding_others (fun _ _ => rfl) (update_outside (by simp)) (fun other _ => ?_)
      (update_outside (by simp)) (fun _ _ => rfl))
  exact update_view (f := s.threads) (b := idle) holding nothing.symm other

theorem Moves.abandon {bf target : FrameId} {v : Nat}
    (isDemoting : s.threads t = .demoting bf pid v target) :
    Moves s (s.setOp t .idle) [.op t] [target] :=
  .lose (holding_op isDemoting rfl) (holding_op (update_self _ _ _) rfl)
    (Function.update_eq_self target s.frames).symm
    (holding_others (fun _ _ => rfl) (fun _ _ => rfl) (holding_outside (by simp))
      (fun _ _ => rfl) (fun _ _ => rfl))

theorem ProviderStep.moves {a : ProviderAction} (placed : s.Placed) (taken : ProviderStep s a s') :
    ∃ involved lost, Moves s s' involved lost ∧ ((∀ t, a ≠ .abandon t) → lost = []) := by
  cases taken with
  | @cool parent pid bf isHot =>
    refine ⟨_, [], .rehead (holding_hot isHot) (holding_cool (update_self _ _ _))
      rfl ⟨rfl, (placed.hot isHot).2⟩
      (holding_others (fun _ _ => rfl) (fun _ _ => rfl) (fun _ _ => rfl)
        (update_outside (by simp)) (fun _ _ => rfl)), fun _ => rfl⟩
  | @check t purpose bf isIdle =>
    exact ⟨[], [], .stayOp (by rw [isIdle]; rfl) rfl rfl rfl rfl (fun _ => rfl)
      (fun _ => ⟨rfl, rfl⟩), fun _ => rfl⟩
  | @popTarget t cxlPartition bf target pid v rest isChecked isFree =>
    exact ⟨[.free ⟨.cxl, cxlPartition⟩, .op t], [], .pop placed (by simp)
      (holding_free isFree) (by rw [holding_op isChecked rfl]; rfl)
      (holding_free (update_self _ _ _)) (holding_op (update_self _ _ _) rfl) rfl
      (holding_others (update_outside (by simp)) (fun _ _ => rfl)
        (holding_outside (by simp)) (fun _ _ => rfl) (fun _ _ => rfl)), fun _ => rfl⟩
  | @demote t parent pid bf target v isDemoting under isCool =>
    refine ⟨[.op t, .swip pid, .batch ⟨t, .dram⟩], [], .replace placed (by simp)
      (holding_op isDemoting rfl) (holding_cool isCool) (holding_batch rfl)
      (holding_op (update_self _ _ _) rfl) (holding_hot (update_self _ _ _))
      (holding_batch (update_self _ _ _)) rfl ?_ rfl
      (holding_others (fun _ _ => rfl) (update_outside (by simp))
        (holding_outside (by simp)) (update_outside (by simp)) (fun _ _ => rfl)), fun _ => rfl⟩
    exact ⟨rfl, (placed.cool isCool).2⟩
  | @abandon t pid bf target v isDemoting =>
    exact ⟨_, _, .abandon isDemoting, fun kept => absurd rfl (kept t)⟩
  | @submit t bf pid v isChecked =>
    exact ⟨[], [], .stayOp (by rw [isChecked]; rfl) rfl rfl rfl rfl (fun _ => rfl)
      (headers_same rfl ⟨rfl, rfl⟩), fun _ => rfl⟩
  | finishWrite => exact ⟨[], [], .stay (fun _ => rfl) (fun _ => ⟨rfl, rfl⟩), fun _ => rfl⟩
  | @writtenBack t bf write isWritten isIdle
  | @writtenBackLost t bf write isWritten isIdle =>
    exact ⟨[], [], .stayOp (by rw [isIdle]; rfl) rfl rfl rfl rfl (fun _ => rfl)
      (headers_same rfl ⟨rfl, rfl⟩), fun _ => rfl⟩
  | @evict t parent pid bf v isChecked under isCool =>
    exact ⟨_, [], .evict placed isCool (by rw [isChecked]; rfl), fun _ => rfl⟩
  | @evictWritten t parent bf isAfterWrite under isCool =>
    exact ⟨_, [], .evict placed isCool (by rw [isAfterWrite]; rfl), fun _ => rfl⟩
  | @giveUpChecked t purpose bf pid v isChecked =>
    exact ⟨[], [], .stayOp (by rw [isChecked]; rfl) rfl rfl rfl rfl (fun _ => rfl)
      (fun _ => ⟨rfl, rfl⟩), fun _ => rfl⟩
  | @giveUpWritten t bf isAfterWrite =>
    exact ⟨[], [], .stayOp (by rw [isAfterWrite]; rfl) rfl rfl rfl rfl (fun _ => rfl)
      (fun _ => ⟨rfl, rfl⟩), fun _ => rfl⟩
  | @pushBatch t tier partition =>
    exact ⟨[.batch ⟨t, tier⟩, .free ⟨tier, partition⟩], [], .pushAll placed (by simp)
      (holding_batch rfl) (holding_free rfl) (holding_batch (update_self _ _ _))
      (holding_free (update_self _ _ _)) rfl
      (holding_others (update_outside (by simp)) (update_outside (by simp))
        (fun _ _ => rfl) (fun _ _ => rfl) (fun _ _ => rfl)), fun _ => rfl⟩
  | @promote parent pid dramPartition cxlPartition bf target rest isHot isFree =>
    refine ⟨[.free ⟨.dram, dramPartition⟩, .swip pid, .free ⟨.cxl, cxlPartition⟩], [],
      .replace placed (by simp) (holding_free isFree) (holding_hot isHot)
      (holding_free rfl) (holding_free ?_)
      (holding_hot (update_self _ _ _)) (holding_free ?_) rfl ?_ rfl
      (holding_others ?_ (fun _ _ => rfl) (fun _ _ => rfl)
        (update_outside (by simp)) (fun _ _ => rfl)), fun _ => rfl⟩
    · exact popPush_dram s.free dramPartition cxlPartition rest bf
    · exact popPush_cxl s.free dramPartition cxlPartition rest bf
    · exact ⟨rfl, (placed.hot isHot).2⟩
    · exact popPush_outside s.free dramPartition cxlPartition rest bf (by simp) (by simp)

variable (owned : PidsOwned cfg.dramPartitionsCount s.pids s.nextPid)
include owned

theorem Moves.link (placed : s.Placed) (isAllocated : s.threads t = .allocated bf pid)
    (threads : s'.threads = update s.threads t .idle)
    (free : s'.free = s.free) (batches : s'.batches = s.batches)
    (swips : s'.swips = update s.swips pid (some (.hot bf)))
    (frames : s'.frames = update s.frames bf frame)
    (header : frame.state = (s.frames bf).state ∧ frame.pid = (s.frames bf).pid)
    (ready : ∀ pid, s'.ready pid = s.ready pid) : Moves s s' [.op t, .swip pid] [] := by
  have isNew : (s.frames bf).state = .hot ∧ (s.frames bf).pid = pid :=
    placed.op isAllocated (mem_singleton_self bf)
  have unlinked : s.swips pid = none :=
    owned.unlinked (by rw [isAllocated]; exact mem_singleton_self pid)
  refine .carry (by simp) (holding_op isAllocated rfl)
    (by rw [holding_unlinked unlinked]) (holding_op (by rw [threads, update_self]) rfl)
    (holding_hot (by rw [swips, update_self])) frames
    ⟨header.1.trans isNew.1, header.2.trans isNew.2⟩
    (holding_others (fun _ _ => by rw [free]) (fun _ _ => by rw [batches])
      (fun other outside => ?_) (fun other outside => ?_) (fun pid _ => ready pid))
  · rw [threads, update_outside (by simp) other outside]
  · rw [swips, update_outside (by simp) other outside]

theorem PageStep.moves {a : PageAction Data} (placed : s.Placed) (taken : PageStep cfg s a s') :
    ∃ involved lost, Moves s s' involved lost ∧ (ReclaimsUnwritten s (.page a) → lost = []) := by
  cases taken with
  | @tryPop t list bf _ isFree isIdle =>
    exact ⟨[.free list, .op t], [], .pop placed (by simp)
      (holding_free isFree) (by rw [holding_op isIdle rfl]; rfl)
      (holding_free (update_self _ _ _)) (holding_op (update_self _ _ _) rfl) rfl
      (holding_others (update_outside (by simp)) (fun _ _ => rfl)
        (holding_outside (by simp)) (fun _ _ => rfl) (fun _ _ => rfl)), fun _ => rfl⟩
  | @initNewPage t partition bf pid _ isAllocating _ issues =>
    cases issues <;>
      refine ⟨[.op t], [], .rehead (holding_op isAllocating rfl)
        (holding_op (update_self _ _ _) rfl) rfl ?_
        (holding_others (fun _ _ => rfl) (fun _ _ => rfl) (holding_outside (by simp))
          (fun _ _ => rfl) (fun _ _ => rfl)), fun _ => rfl⟩ <;>
      exact ⟨rfl, rfl⟩
  | modifyNew | @modify =>
    exact ⟨[], [], .stay (fun _ => rfl) (headers_same rfl ⟨rfl, rfl⟩), fun _ => rfl⟩
  | @link t parent pid bf _ isAllocated | @createMeta t pid bf isAllocated =>
    exact ⟨_, [], .link owned placed isAllocated rfl rfl rfl rfl rfl ⟨rfl, rfl⟩
      (fun _ => rfl), fun _ => rfl⟩
  | @discard t pid bf isAllocated =>
    exact ⟨[], [], .stayOp (by rw [isAllocated]; rfl) rfl rfl rfl rfl (fun _ => rfl)
      (fun _ => ⟨rfl, rfl⟩), fun _ => rfl⟩
  | moveChild => exact ⟨[], [], .stay (fun _ => rfl) (fun _ => ⟨rfl, rfl⟩), fun _ => rfl⟩
  | @unlink t parent pid bf isHot isIdle =>
    refine ⟨[.swip pid, .op t], [], .carry (by simp) (holding_hot isHot)
      (by rw [holding_op isIdle rfl]; rfl) (holding_unlinked (update_self _ _ _))
      (holding_op (update_self _ _ _) rfl)
      (Function.update_eq_self bf s.frames).symm ?_
      (holding_others (fun _ _ => rfl) (fun _ _ => rfl) (holding_outside (by simp))
        (update_outside (by simp)) (fun _ _ => rfl)), fun _ => rfl⟩
    exact placed.hot isHot
  | @recycle t pid bf isUnlinked | @retire t pid bf isUnlinked =>
    exact ⟨[], [], .stayOp (by rw [isUnlinked]; rfl) rfl rfl rfl rfl (fun _ => rfl)
      (fun _ => ⟨rfl, rfl⟩), fun _ => rfl⟩
  | @reclaimWritten t partition pid bf isReclaiming written =>
    refine ⟨[.op t], [bf], .lose (holding_op isReclaiming rfl)
      (holding_op (update_self _ _ _) rfl) rfl
      (holding_others (fun _ _ => rfl) (fun _ _ => rfl) (holding_outside (by simp))
        (fun _ _ => rfl) (fun _ _ => rfl)), fun unwritten => ?_⟩
    simp only [ReclaimsUnwritten, isReclaiming, written] at unwritten
    cases unwritten
  | @reclaimFrame t partition pid bf isReclaiming =>
    exact ⟨[.op t, .free ⟨bf.tier, partition⟩], [], .push placed (by simp)
      (holding_op isReclaiming rfl) (holding_free rfl)
      (holding_op (update_self _ _ _) rfl) (holding_free (update_self _ _ _)) rfl
      rfl (holding_others (update_outside (by simp)) (fun _ _ => rfl)
        (holding_outside (by simp)) (fun _ _ => rfl) (fun _ _ => rfl)), fun _ => rfl⟩

end TieredStore.BufferManager
