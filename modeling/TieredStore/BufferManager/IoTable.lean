import TieredStore.BufferManager.PidOwners

namespace TieredStore.BufferManager

open List Op State

open Function (update update_self update_of_ne)

variable {Data : Type} {cfg : Config Data} {s s' : State Data} {ioFrame : IOFrame}

inductive IoPart
  | loader
  | waiter
  | leaver
  deriving DecidableEq

def Op.part (pid : Pid) (entry : EntryId) : Op → Option IoPart
  | .loading _ loaded at_ _ => if loaded = pid ∧ at_ = entry then some .loader else none
  | .waiting awaited at_ => if awaited = pid ∧ at_ = entry then some .waiter else none
  | .leaving left at_ => if left = pid ∧ at_ = entry then some .leaver else none
  | _ => none

section Entry

variable {parts : ThreadId → Option IoPart} {ioFrame : IOFrame} {t thread : ThreadId}
  {isEvicted isEvicted' : Prop}

structure Waiters (parts : ThreadId → Option IoPart) (waiters : List ThreadId) : Prop where
  nodup : waiters.Nodup
  mem_iff : ∀ t, t ∈ waiters ↔ parts t = some .waiter

structure Pending (parts : ThreadId → Option IoPart) (ioFrame : IOFrame) (waiting : Nat) :
    Prop where
  count : ioFrame.readersCounter = waiting + 1
  noneLeaves : ∀ t, parts t ≠ some .leaver
  source : (ioFrame.state = .reading ∧ ioFrame.bf = none ∧
      ∃ loader, ∀ t, parts t = some .loader ↔ t = loader) ∨
    (ioFrame.state = .ready ∧ ioFrame.bf ≠ none ∧ ∀ t, parts t ≠ some .loader)

structure Finished (parts : ThreadId → Option IoPart) (ioFrame : IOFrame) (waiting : Nat) :
    Prop where
  count : ioFrame.readersCounter = waiting
  noFrame : ioFrame.bf = none
  noneLoads : ∀ t, parts t ≠ some .loader
  remover : (0 < waiting ∧ ∀ t, parts t ≠ some .leaver) ∨
    (waiting = 0 ∧ ∃ leaver, ∀ t, parts t = some .leaver ↔ t = leaver)

def EntryInv (parts : ThreadId → Option IoPart) (isEvicted : Prop) (ioFrame : IOFrame) :
    Prop :=
  ∃ waiters, Waiters parts waiters ∧
    (isEvicted → Pending parts ioFrame waiters.length) ∧
    (¬ isEvicted → Finished parts ioFrame waiters.length)

variable {waiters : List ThreadId}

theorem update_eq_some_iff {part : Option IoPart} {its : IoPart} (before : parts t ≠ some its)
    (after : part ≠ some its) (other : ThreadId) :
    update parts t part other = some its ↔ parts other = some its := by
  by_cases same : other = t
  · subst same
    simp [before, after]
  · rw [update_of_ne same]

theorem update_ne_some {part : Option IoPart} {its : IoPart} (none : ∀ t, parts t ≠ some its)
    (after : part ≠ some its) (other : ThreadId) : update parts t part other ≠ some its :=
  (update_eq_some_iff (none t) after other).not.mpr (none other)

theorem update_none_of_unique {its : IoPart} (unique : ∀ other, parts other = some its ↔ other = t)
    (other : ThreadId) : update parts t none other ≠ some its := by
  by_cases same : other = t
  · simp [same]
  · rw [update_of_ne same]
    exact (unique other).not.mpr same

theorem eq_none_of_ne (notLoader : parts t ≠ some .loader) (notWaiter : parts t ≠ some .waiter)
    (notLeaver : parts t ≠ some .leaver) : parts t = none := by
  match isPart : parts t with
  | none => rfl
  | some .loader => contradiction
  | some .waiter => contradiction
  | some .leaver => contradiction

section

variable (waits : Waiters parts waiters)
include waits

theorem Waiters.eq_nil (empty : waiters.length = 0) (t : ThreadId) : parts t ≠ some .waiter := by
  intro isWaiter
  rw [← waits.mem_iff, length_eq_zero_iff.mp empty] at isWaiter
  cases isWaiter

theorem Waiters.change {part : Option IoPart}
    (notBefore : parts t ≠ some .waiter) (notAfter : part ≠ some .waiter) :
    Waiters (update parts t part) waiters := by
  refine ⟨waits.nodup, fun other => ?_⟩
  rw [waits.mem_iff, update_eq_some_iff notBefore notAfter]

theorem Waiters.add (notBefore : parts t ≠ some .waiter) :
    Waiters (update parts t (some .waiter)) (t :: waiters) := by
  refine ⟨nodup_cons.mpr ⟨(waits.mem_iff t).not.mpr notBefore, waits.nodup⟩,
    fun other => ?_⟩
  rw [mem_cons, waits.mem_iff]
  by_cases same : other = t
  · subst same
    simp
  · simp [same]

theorem Waiters.drop {part : Option IoPart} (notAfter : part ≠ some .waiter) :
    Waiters (update parts t part) (waiters.erase t) := by
  refine ⟨waits.nodup.erase _, fun other => ?_⟩
  rw [waits.nodup.mem_erase_iff, waits.mem_iff]
  by_cases same : other = t
  · subst same
    simp [notAfter]
  · simp [same]

end

theorem Pending.of_loader {waiting : Nat} (pending : Pending parts ioFrame waiting)
    (isLoader : parts t = some .loader) :
    ioFrame.state = .reading ∧ ioFrame.bf = none ∧
      ∀ other, parts other = some .loader ↔ other = t := by
  rcases pending.source with ⟨isReading, noFrame, loader, unique⟩ | ⟨-, -, noneLoads⟩
  · obtain rfl := (unique t).mp isLoader
    exact ⟨isReading, noFrame, unique⟩
  · exact absurd isLoader (noneLoads t)

theorem entryInv_start (evicted : isEvicted) :
    EntryInv (update (fun _ => none) t (some .loader)) isEvicted
      ⟨.reading, true, none, 1⟩ := by
  refine ⟨[], ⟨nodup_nil, fun other => ?_⟩, fun _ => ⟨rfl, fun other => ?_, .inl
    ⟨rfl, rfl, t, fun other => ?_⟩⟩, fun absent => absurd evicted absent⟩
  all_goals
    by_cases same : other = t
    · subst same
      simp
    · simp [same]

variable (inv : EntryInv parts isEvicted ioFrame)
include inv

theorem EntryInv.evicted_of_loader (isLoader : parts t = some .loader) : isEvicted := by
  obtain ⟨_, _, -, finished⟩ := inv
  by_contra swizzled
  exact (finished swizzled).noneLoads t isLoader

theorem EntryInv.loader_unique {other : ThreadId} (isLoader : parts t = some .loader)
    (isLoaderToo : parts other = some .loader) : other = t := by
  have evicted := inv.evicted_of_loader isLoader
  obtain ⟨_, -, pending, -⟩ := inv
  exact (((pending evicted).of_loader isLoader).2.2 other).mp isLoaderToo

theorem EntryInv.loaderLast (evicted : isEvicted)
    (isLoader : parts t = some .loader) (last : ioFrame.readersCounter = 1)
    (other : ThreadId) : update parts t none other = none := by
  obtain ⟨waiters, waits, pending, -⟩ := inv
  have pending := pending evicted
  obtain ⟨-, -, unique⟩ := pending.of_loader isLoader
  have empty : waiters.length = 0 := by
    have := pending.count
    omega
  exact eq_none_of_ne (update_none_of_unique unique other)
    ((waits.change (by simp [isLoader]) (by simp)).eq_nil empty other)
    (update_ne_some pending.noneLeaves (by simp) other)

theorem EntryInv.loaderMore (evicted : isEvicted)
    (swizzled : ¬ isEvicted') (isLoader : parts t = some .loader)
    (more : ioFrame.readersCounter ≠ 1) :
    EntryInv (update parts t none) isEvicted' ioFrame.leaveReader := by
  obtain ⟨waiters, waits, pending, -⟩ := inv
  have pending := pending evicted
  obtain ⟨-, noFrame, unique⟩ := pending.of_loader isLoader
  have count := pending.count
  refine ⟨waiters, waits.change (by simp [isLoader]) (by simp),
    fun evicted => absurd evicted swizzled,
    fun _ => ⟨?_, noFrame, update_none_of_unique unique,
      .inl ⟨by omega, update_ne_some pending.noneLeaves (by simp)⟩⟩⟩
  simp only [IOFrame.leaveReader]
  omega

theorem EntryInv.publish (evicted : isEvicted) (isLoader : parts t = some .loader) (bf : FrameId) :
    EntryInv (update parts t none) isEvicted
      { ioFrame with bf := some bf, state := .ready } := by
  obtain ⟨waiters, waits, pending, -⟩ := inv
  have pending := pending evicted
  obtain ⟨-, -, unique⟩ := pending.of_loader isLoader
  exact ⟨waiters, waits.change (by simp [isLoader]) (by simp), fun _ => ⟨pending.count,
    update_ne_some pending.noneLeaves (by simp),
    .inr ⟨rfl, by simp, update_none_of_unique unique⟩⟩, fun absent => absurd evicted absent⟩

theorem EntryInv.wait (evicted : isEvicted)
    (noPart : parts t = none) (isReading : ioFrame.state = .reading) :
    EntryInv (update parts t (some .waiter)) isEvicted
      { ioFrame with readersCounter := ioFrame.readersCounter + 1 } := by
  obtain ⟨waiters, waits, pending, -⟩ := inv
  have pending := pending evicted
  refine ⟨t :: waiters, waits.add (by simp [noPart]), fun _ => ⟨?_,
    update_ne_some pending.noneLeaves (by simp), ?_⟩, fun absent => absurd evicted absent⟩
  · have := pending.count
    simp only [length_cons]
    omega
  · rcases pending.source with ⟨-, noFrame, loader, unique⟩ | ⟨isReady, -⟩
    · refine .inl ⟨isReading, noFrame, loader, fun other => ?_⟩
      rw [← unique other, update_eq_some_iff (by simp [noPart]) (by simp)]
    · rw [isReading] at isReady
      cases isReady

theorem EntryInv.wake (isWaiter : parts t = some .waiter) :
    EntryInv (update parts t
      (if ioFrame.readersCounter = 1 then some .leaver else none)) isEvicted
      ioFrame.leaveReader := by
  obtain ⟨waiters, waits, pending, finished⟩ := inv
  have mem : t ∈ waiters := (waits.mem_iff t).mpr isWaiter
  have length := length_erase_of_mem mem
  have positive : 0 < waiters.length := length_pos_of_mem mem
  refine ⟨waiters.erase t, waits.drop (by split <;> simp), fun evicted => ?_,
    fun notEvicted => ?_⟩
  · have pending := pending evicted
    have count := pending.count
    rw [if_neg (by omega)]
    refine ⟨?_, update_ne_some pending.noneLeaves (by simp), ?_⟩
    · simp only [IOFrame.leaveReader]
      omega
    · rcases pending.source with ⟨isReading, noFrame, loader, unique⟩ | ⟨isReady, hasFrame, no⟩
      · refine .inl ⟨isReading, noFrame, loader, fun other => ?_⟩
        rw [← unique other, update_eq_some_iff (by simp [isWaiter]) (by simp)]
      · exact .inr ⟨isReady, hasFrame, update_ne_some no (by simp)⟩
  · have finished := finished notEvicted
    have count := finished.count
    have noneLeaves : ∀ other, parts other ≠ some .leaver := by
      rcases finished.remover with ⟨-, noneLeaves⟩ | ⟨_, -⟩
      · exact noneLeaves
      · omega
    refine ⟨?_, finished.noFrame, update_ne_some finished.noneLoads (by split <;> simp), ?_⟩
    · simp only [IOFrame.leaveReader]
      omega
    · by_cases last : ioFrame.readersCounter = 1
      · rw [if_pos last]
        refine .inr ⟨by omega, t, fun other => ?_⟩
        by_cases same : other = t
        · simp [same]
        · simp [same, noneLeaves other]
      · rw [if_neg last]
        exact .inl ⟨by omega, update_ne_some noneLeaves (by simp)⟩

theorem EntryInv.leaver (isLeaver : parts t = some .leaver) :
    ioFrame.readersCounter = 0 ∧ ioFrame.bf = none ∧
      ∀ other, update parts t none other = none := by
  obtain ⟨_, waits, pending, finished⟩ := inv
  have notEvicted : ¬ isEvicted := fun evicted =>
    (pending evicted).noneLeaves t isLeaver
  have finished := finished notEvicted
  rcases finished.remover with ⟨-, noneLeaves⟩ | ⟨empty, leaver, unique⟩
  · exact absurd isLeaver (noneLeaves t)
  · obtain rfl := (unique t).mp isLeaver
    refine ⟨by simpa [empty] using finished.count, finished.noFrame, fun other => ?_⟩
    exact eq_none_of_ne (update_ne_some finished.noneLoads (by simp) other)
      ((waits.change (by simp [isLeaver]) (by simp)).eq_nil empty other)
      (update_none_of_unique unique other)

theorem EntryInv.readyLast (evicted : isEvicted)
    (isReady : ioFrame.state = .ready) (last : ioFrame.readersCounter = 1) (other : ThreadId) :
    parts other = none := by
  obtain ⟨waiters, waits, pending, -⟩ := inv
  have pending := pending evicted
  have empty : waiters.length = 0 := by
    have := pending.count
    omega
  rcases pending.source with ⟨isReading, -⟩ | ⟨-, -, noneLoads⟩
  · rw [isReady] at isReading
    cases isReading
  · exact eq_none_of_ne (noneLoads other) (waits.eq_nil empty other) (pending.noneLeaves other)

theorem EntryInv.readyMore (evicted : isEvicted)
    (swizzled : ¬ isEvicted') (isReady : ioFrame.state = .ready)
    (more : ioFrame.readersCounter ≠ 1) :
    EntryInv parts isEvicted' { ioFrame.leaveReader with bf := none, state := .toDelete } := by
  obtain ⟨waiters, waits, pending, -⟩ := inv
  have pending := pending evicted
  have count := pending.count
  rcases pending.source with ⟨isReading, -⟩ | ⟨-, -, noneLoads⟩
  · rw [isReady] at isReading
    cases isReading
  · refine ⟨waiters, waits, fun evicted => absurd evicted swizzled, fun _ => ⟨?_, rfl, noneLoads,
      .inl ⟨by omega, pending.noneLeaves⟩⟩⟩
    simp only [IOFrame.leaveReader]
    omega

theorem EntryInv.not_toDelete (evicted : isEvicted) :
    ioFrame.state ≠ .toDelete := by
  obtain ⟨_, _, pending, -⟩ := inv
  rcases (pending evicted).source with ⟨isReading, -⟩ | ⟨isReady, -⟩
  · simp [isReading]
  · simp [isReady]

theorem EntryInv.unlock :
    EntryInv parts isEvicted { ioFrame with locked := false } := by
  obtain ⟨waiters, waits, pending, finished⟩ := inv
  refine ⟨waiters, waits, fun evicted => ?_, fun notEvicted => ?_⟩
  · have pending := pending evicted
    exact ⟨pending.count, pending.noneLeaves, pending.source⟩
  · have finished := finished notEvicted
    exact ⟨finished.count, finished.noFrame, finished.noneLoads, finished.remover⟩

end Entry

/-- The readers of every entry are accounted for, and no thread refers to an entry that
is not in the table. -/
structure IoInv (parts : Pid → EntryId → ThreadId → Option IoPart) (evicted : Pid → Prop)
    (ioTable : Pid → Option EntryId) (entries : EntryId → IOFrame) (nextEntry : EntryId) :
    Prop where
  fresh : ∀ pid e, ioTable pid = some e → e < nextEntry
  distinct : ∀ pid pid' e, ioTable pid = some e → ioTable pid' = some e → pid = pid'
  used : ∀ pid e t, parts pid e t ≠ none → ioTable pid = some e
  entry : ∀ pid e, ioTable pid = some e → EntryInv (parts pid e) (evicted pid) (entries e)

namespace IoInv

variable {parts parts' : Pid → EntryId → ThreadId → Option IoPart} {evicted evicted' : Pid → Prop}
  {ioTable : Pid → Option EntryId} {entries entries' : EntryId → IOFrame} {nextEntry : EntryId}
  {pid : Pid} {e : EntryId} (inv : IoInv parts evicted ioTable entries nextEntry)
include inv

theorem keep (sameParts : ∀ pid e, parts' pid e = parts pid e)
    (sameEvicted : ∀ pid, ioTable pid ≠ none → (evicted' pid ↔ evicted pid)) :
    IoInv parts' evicted' ioTable entries nextEntry where
  fresh := inv.fresh
  distinct := inv.distinct
  used pid e t uses := inv.used pid e t (sameParts pid e ▸ uses)
  entry pid e present := by
    rw [sameParts, sameEvicted pid (by simp [present])]
    exact inv.entry pid e present

theorem update (present : ioTable pid = some e) (otherParts : ∀ pid' e', e' ≠ e ∨ pid' ≠ pid →
      parts' pid' e' = parts pid' e')
    (otherEvicted : ∀ pid', pid' ≠ pid → (evicted' pid' ↔ evicted pid'))
    (otherEntries : ∀ e', e' ≠ e → entries' e' = entries e')
    (kept : EntryInv (parts' pid e) (evicted' pid) (entries' e)) :
    IoInv parts' evicted' ioTable entries' nextEntry where
  fresh := inv.fresh
  distinct := inv.distinct
  used pid' e' t uses := by
    by_cases same : e' = e ∧ pid' = pid
    · rw [same.1, same.2]
      exact present
    · rw [otherParts pid' e' (not_and_or.mp same)] at uses
      exact inv.used pid' e' t uses
  entry pid' e' present' := by
    by_cases same : pid' = pid
    · subst same
      obtain rfl : e = e' := Option.some.inj (present.symm.trans present')
      exact kept
    · have ne : e' ≠ e := by
        intro sameEntry
        subst sameEntry
        exact same (inv.distinct pid' pid e' present' present)
      rw [otherParts pid' e' (.inr same), otherEvicted pid' same, otherEntries e' ne]
      exact inv.entry pid' e' present'

theorem remove (present : ioTable pid = some e) (otherParts : ∀ pid' e', e' ≠ e ∨ pid' ≠ pid →
      parts' pid' e' = parts pid' e')
    (otherEvicted : ∀ pid', pid' ≠ pid → (evicted' pid' ↔ evicted pid'))
    (otherEntries : ∀ e', e' ≠ e → entries' e' = entries e') (unused : ∀ t, parts' pid e t = none) :
    IoInv parts' evicted' (Function.update ioTable pid none) entries' nextEntry := by
  have others : ∀ pid' e', Function.update ioTable pid none pid' = some e' →
      pid' ≠ pid ∧ ioTable pid' = some e' := by
    intro pid' e' present'
    by_cases same : pid' = pid
    · rw [same, update_self] at present'
      cases present'
    · rw [update_of_ne same] at present'
      exact ⟨same, present'⟩
  constructor
  · intro pid' e' present'
    exact inv.fresh pid' e' (others pid' e' present').2
  · intro pid' pid'' e' present' present''
    exact inv.distinct pid' pid'' e' (others pid' e' present').2
      (others pid'' e' present'').2
  · intro pid' e' t uses
    by_cases same : e' = e ∧ pid' = pid
    · rw [same.1, same.2, unused t] at uses
      exact absurd rfl uses
    · have ne := not_and_or.mp same
      rw [otherParts pid' e' ne] at uses
      have before := inv.used pid' e' t uses
      rw [update_of_ne]
      · exact before
      · intro samePid
        rcases ne with otherEntry | otherPid
        · rw [samePid, present] at before
          exact otherEntry (Option.some.inj before).symm
        · exact otherPid samePid
  · intro pid' e' present'
    obtain ⟨ne, before⟩ := others pid' e' present'
    have otherEntry : e' ≠ e := by
      intro sameEntry
      rw [sameEntry] at before
      exact ne (inv.distinct pid' pid e before present)
    rw [otherParts pid' e' (.inr ne), otherEvicted pid' ne,
      otherEntries e' otherEntry]
    exact inv.entry pid' e' before

theorem insert (absent : ioTable pid = none) (otherParts : ∀ pid' e', e' ≠ nextEntry ∨ pid' ≠ pid →
      parts' pid' e' = parts pid' e')
    (kept : EntryInv (parts' pid nextEntry) (evicted pid) ioFrame) :
    IoInv parts' evicted (Function.update ioTable pid (some nextEntry))
      (Function.update entries nextEntry ioFrame) (nextEntry + 1) := by
  have old : ∀ pid' e', ioTable pid' = some e' → e' ≠ nextEntry ∧ pid' ≠ pid := by
    intro pid' e' present
    refine ⟨ne_of_lt (inv.fresh pid' e' present), fun same => ?_⟩
    rw [same, absent] at present
    cases present
  have origin : ∀ pid' e',
      Function.update ioTable pid (some nextEntry) pid' = some e' →
      (pid' = pid ∧ e' = nextEntry) ∨ (pid' ≠ pid ∧ ioTable pid' = some e') := by
    intro pid' e' present
    by_cases same : pid' = pid
    · rw [same, update_self] at present
      exact .inl ⟨same, (Option.some.inj present).symm⟩
    · rw [update_of_ne same] at present
      exact .inr ⟨same, present⟩
  constructor
  · intro pid' e' present
    rcases origin pid' e' present with ⟨-, rfl⟩ | ⟨-, before⟩
    · exact Nat.lt_succ_self _
    · exact Nat.lt_succ_of_lt (inv.fresh pid' e' before)
  · intro pid' pid'' e' present' present''
    rcases origin pid' e' present' with ⟨rfl, rfl⟩ | ⟨-, before'⟩
    · rcases origin pid'' _ present'' with ⟨rfl, -⟩ | ⟨-, before''⟩
      · rfl
      · exact absurd rfl (old pid'' _ before'').1
    · rcases origin pid'' e' present'' with ⟨rfl, rfl⟩ | ⟨-, before''⟩
      · exact absurd rfl (old pid' _ before').1
      · exact inv.distinct pid' pid'' e' before' before''
  · intro pid' e' t uses
    by_cases same : e' = nextEntry ∧ pid' = pid
    · rw [same.1, same.2, update_self]
    · rw [otherParts pid' e' (not_and_or.mp same)] at uses
      have before := inv.used pid' e' t uses
      rw [update_of_ne (old pid' e' before).2]
      exact before
  · intro pid' e' present
    rcases origin pid' e' present with ⟨rfl, rfl⟩ | ⟨ne, before⟩
    · rw [update_self]
      exact kept
    · rw [otherParts pid' e' (.inr ne), update_of_ne (old pid' e' before).1]
      exact inv.entry pid' e' before

theorem unused (absent : ioTable pid = none) (t : ThreadId) : parts pid e t = none := by
  by_contra uses
  rw [inv.used pid e t uses] at absent
  cases absent

end IoInv

def State.parts (state : State Data) (pid : Pid) (entry : EntryId) (thread : ThreadId) :
    Option IoPart :=
  (state.threads thread).part pid entry

def State.Evicted (s : State Data) (pid : Pid) : Prop :=
  s.swips pid = some .evicted

def State.IoInv (s : State Data) : Prop :=
  BufferManager.IoInv s.parts s.Evicted s.ioTable s.entries s.nextEntry

variable {t : ThreadId} {op : Op}

theorem State.parts_setOp (threads : s'.threads = update s.threads t op) (pid : Pid) (e : EntryId) :
    s'.parts pid e = update (s.parts pid e) t (op.part pid e) := by
  funext other
  simp only [parts, threads]
  by_cases same : other = t
  · rw [same, update_self, update_self]
  · rw [update_of_ne same, update_of_ne same]
    rfl

variable {pid : Pid} {e : EntryId}

theorem State.parts_same (threads : s'.threads = update s.threads t op)
    (same : op.part pid e = (s.threads t).part pid e) :
    s'.parts pid e = s.parts pid e := by
  rw [parts_setOp threads, same]
  exact Function.update_eq_self t _

def Op.ConcernsOnly (op : Op) (pid : Pid) (e : EntryId) : Prop :=
  ∀ pid' e', e' ≠ e ∨ pid' ≠ pid → op.part pid' e' = none

theorem Op.concernsOnly_of_part (concerns : op.part pid e ≠ none) :
    op.ConcernsOnly pid e := by
  intro _ _ ne
  cases op <;> simp only [part] at concerns ⊢ <;> grind

theorem Op.concernsOnly_idle (pid : Pid) (e : EntryId) : idle.ConcernsOnly pid e :=
  fun _ _ _ => rfl

theorem Op.concernsOnly_loading (stage : LoadStage) (pid : Pid) (e : EntryId)
    (bf : FrameId) : (loading stage pid e bf).ConcernsOnly pid e :=
  concernsOnly_of_part (by simp [part])

theorem Op.concernsOnly_waiting (pid : Pid) (e : EntryId) :
    (waiting pid e).ConcernsOnly pid e :=
  concernsOnly_of_part (by simp [part])

theorem Op.concernsOnly_leaving (pid : Pid) (e : EntryId) :
    (leaving pid e).ConcernsOnly pid e :=
  concernsOnly_of_part (by simp [part])

theorem State.evicted_setSwip {swip : Option Swip}
    (swips : s'.swips = update s.swips pid swip) (pid' : Pid) (ne : pid' ≠ pid) :
    s'.Evicted pid' ↔ s.Evicted pid' := by
  simp only [Evicted, swips]
  rw [update_of_ne ne]

theorem State.parts_other (threads : s'.threads = update s.threads t op)
    (before : (s.threads t).ConcernsOnly pid e) (after : op.ConcernsOnly pid e)
    (pid' : Pid) (e' : EntryId) (ne : e' ≠ e ∨ pid' ≠ pid) :
    s'.parts pid' e' = s.parts pid' e' :=
  parts_same threads ((after pid' e' ne).trans (before pid' e' ne).symm)

theorem State.IoInv.partOf (inv : s.IoInv) {its : IoPart} (isOp : s.threads t = op)
    (isPart : op.part pid e = some its) :
    s.ioTable pid = some e ∧ (s.threads t).ConcernsOnly pid e ∧ s.parts pid e t = some its := by
  have part : (s.threads t).part pid e = some its := isOp ▸ isPart
  have concerns : (s.threads t).part pid e ≠ none := by simp [part]
  exact ⟨inv.used pid e t concerns, concernsOnly_of_part concerns, part⟩

theorem State.not_evicted_setSwip {bf : FrameId}
    (swips : s'.swips = update s.swips pid (some (.hot bf))) : ¬ s'.Evicted pid := by
  rw [Evicted, swips, update_self]
  simp

theorem ProviderStep.sameTable {a : ProviderAction} (taken : ProviderStep s a s') :
    s'.ioTable = s.ioTable ∧ s'.entries = s.entries ∧ s'.nextEntry = s.nextEntry := by
  cases taken <;> exact ⟨rfl, rfl, rfl⟩

theorem PageStep.sameTable {a : PageAction Data} (taken : PageStep cfg s a s') :
    s'.ioTable = s.ioTable ∧ s'.entries = s.entries ∧ s'.nextEntry = s.nextEntry := by
  cases taken with
  | initNewPage _ _ issues => cases issues <;> exact ⟨rfl, rfl, rfl⟩
  | _ => exact ⟨rfl, rfl, rfl⟩

section

variable (inv : s.IoInv)
include inv

theorem State.IoInv.updateEntry (present : s.ioTable pid = some e)
    (before : (s.threads t).ConcernsOnly pid e) (after : op.ConcernsOnly pid e)
    (threads : s'.threads = update s.threads t op)
    (evicted : ∀ pid', pid' ≠ pid → (s'.Evicted pid' ↔ s.Evicted pid'))
    (ioTable : s'.ioTable = s.ioTable) (entries : s'.entries = update s.entries e ioFrame)
    (nextEntry : s'.nextEntry = s.nextEntry)
    (kept : EntryInv (update (s.parts pid e) t (op.part pid e))
      (s'.Evicted pid) ioFrame) : s'.IoInv := by
  rw [IoInv, ioTable, entries, nextEntry]
  refine IoInv.update inv present (parts_other threads before after) evicted
    (fun e' ne => update_of_ne ne _ _) ?_
  rw [parts_setOp threads, update_self]
  exact kept

theorem State.IoInv.removeEntry (present : s.ioTable pid = some e)
    (before : (s.threads t).ConcernsOnly pid e) (threads : s'.threads = update s.threads t .idle)
    (evicted : ∀ pid', pid' ≠ pid → (s'.Evicted pid' ↔ s.Evicted pid'))
    (ioTable : s'.ioTable = update s.ioTable pid none)
    (entries : ∀ e', e' ≠ e → s'.entries e' = s.entries e') (nextEntry : s'.nextEntry = s.nextEntry)
    (unused : ∀ other, update (s.parts pid e) t none other = none) : s'.IoInv := by
  rw [IoInv, ioTable, nextEntry]
  refine IoInv.remove inv present
    (parts_other threads before (concernsOnly_idle pid e)) evicted entries ?_
  rw [parts_setOp threads]
  exact unused

theorem ResolveStep.ioInv {a : ResolveAction} (taken : ResolveStep cfg s a s') : s'.IoInv := by
  cases taken with
  | @warm parent pid bf isCool =>
    refine inv.keep (fun _ _ => rfl) fun pid' _ => ?_
    exact of_eq (update_view (f := s.swips) (· = some .evicted) (by simp [isCool]) pid')
  | @miss t pid _ bf rest isIdle isEvicted absent =>
    refine IoInv.insert inv absent (parts_other rfl
      (isIdle ▸ concernsOnly_idle pid _) (concernsOnly_loading _ _ _ _)) ?_
    have nobody : s.parts pid s.nextEntry = fun _ => none :=
      funext fun t => inv.unused absent t
    rw [parts_setOp rfl]
    simp only [part]
    change EntryInv (update (s.parts pid s.nextEntry) t _) _ _
    rw [nobody]
    exact entryInv_start isEvicted
  | @readPage t pid e bf isReading =>
    refine inv.keep (fun pid' e' => parts_same rfl ?_) fun _ _ => Iff.rfl
    rw [isReading]
    rfl
  | @redirect t dramPartition _ pid e bf _ rest isLoaded
  | @keep t dramPartition pid e bf isLoaded =>
    obtain ⟨present, before, isLoader⟩ := inv.partOf isLoaded (if_pos ⟨rfl, rfl⟩)
    refine inv.updateEntry present before (concernsOnly_loading _ _ _ _) rfl
      (fun _ _ => Iff.rfl) rfl rfl rfl ?_
    simp only [part, and_self, if_true, ← isLoader, Function.update_eq_self]
    exact (inv.entry pid e present).unlock
  | @swizzleLast t parent pid e bf isInstalling isEvicted under last =>
    obtain ⟨present, before, isLoader⟩ := inv.partOf isInstalling (if_pos ⟨rfl, rfl⟩)
    refine inv.removeEntry present before rfl
      (evicted_setSwip rfl) rfl (fun e' ne => update_of_ne ne _ _) rfl ?_
    exact (inv.entry pid e present).loaderLast isEvicted isLoader last
  | @swizzle t parent pid e bf isInstalling isEvicted under more =>
    obtain ⟨present, before, isLoader⟩ := inv.partOf isInstalling (if_pos ⟨rfl, rfl⟩)
    refine inv.updateEntry present before
      (concernsOnly_idle pid e) rfl (evicted_setSwip rfl) rfl rfl rfl ?_
    exact (inv.entry pid e present).loaderMore isEvicted (not_evicted_setSwip rfl) isLoader more
  | @publish t pid e bf isInstalling =>
    obtain ⟨present, before, isLoader⟩ := inv.partOf isInstalling (if_pos ⟨rfl, rfl⟩)
    refine inv.updateEntry present before
      (concernsOnly_idle pid e) rfl (fun _ _ => Iff.rfl) rfl rfl rfl ?_
    have entryInv := inv.entry pid e present
    exact entryInv.publish (entryInv.evicted_of_loader isLoader) isLoader bf
  | @wait t pid e isIdle isEvicted present isReading =>
    refine inv.updateEntry present (isIdle ▸ concernsOnly_idle pid e)
      (concernsOnly_waiting pid e) rfl (fun _ _ => Iff.rfl) rfl rfl rfl ?_
    simp only [part]
    exact (inv.entry pid e present).wait isEvicted
      (by simp [parts, isIdle, part]) isReading
  | @wakeLast t pid e isWaiting last =>
    obtain ⟨present, before, isWaiter⟩ := inv.partOf isWaiting (if_pos ⟨rfl, rfl⟩)
    have woken := (inv.entry pid e present).wake isWaiter
    rw [if_pos last] at woken
    refine inv.updateEntry present before
      (concernsOnly_leaving pid e) rfl (fun _ _ => Iff.rfl) rfl rfl rfl ?_
    simp only [part]
    exact woken
  | @wake t pid e isWaiting more =>
    obtain ⟨present, before, isWaiter⟩ := inv.partOf isWaiting (if_pos ⟨rfl, rfl⟩)
    have woken := (inv.entry pid e present).wake isWaiter
    rw [if_neg more] at woken
    exact inv.updateEntry present before
      (concernsOnly_idle pid e) rfl (fun _ _ => Iff.rfl) rfl rfl rfl woken
  | @leaveLast t pid e isLeaving =>
    obtain ⟨present, before, isLeaver⟩ := inv.partOf isLeaving (if_pos ⟨rfl, rfl⟩)
    obtain ⟨-, -, unused⟩ := (inv.entry pid e present).leaver isLeaver
    exact inv.removeEntry present before rfl
      (fun _ _ => Iff.rfl) rfl (fun _ _ => rfl) rfl unused
  | @leave t pid e isLeaving more =>
    obtain ⟨present, -, isLeaver⟩ := inv.partOf isLeaving (if_pos ⟨rfl, rfl⟩)
    obtain ⟨last, -⟩ := (inv.entry pid e present).leaver isLeaver
    exact absurd last more
  | @takeReadyLast parent pid e bf present hasFrame isEvicted under isReady last =>
    exact IoInv.remove inv present (fun _ _ _ => rfl) (evicted_setSwip rfl)
      (fun e' ne => update_of_ne ne _ _)
      ((inv.entry pid e present).readyLast isEvicted isReady last)
  | @takeReady parent pid e bf present hasFrame isEvicted under isReady more =>
    refine IoInv.update inv present (fun _ _ _ => rfl) (evicted_setSwip rfl)
      (fun e' ne => update_of_ne ne _ _) ?_
    simp only [setEntry, update_self]
    exact (inv.entry pid e present).readyMore isEvicted (not_evicted_setSwip rfl)
      isReady more
  | @dropDeleted pid e present isEvicted isDeleted =>
    exact absurd isDeleted ((inv.entry pid e present).not_toDelete isEvicted)

theorem ProviderStep.ioInv {a : ProviderAction} (taken : ProviderStep s a s')
    (unread : ∀ pid, ¬ s.Evicted pid → s'.Evicted pid → s.ioTable pid = none) :
    s'.IoInv := by
  have sameParts : ∀ pid e, s'.parts pid e = s.parts pid e := by
    intro pid e
    funext t
    cases taken <;>
      first
      | rfl
      | exact update_view (f := s.threads) (part pid e)
          (by simp only [part, *]) t
  have stays : ∀ pid, s.Evicted pid → s'.Evicted pid := by
    intro pid isEvicted
    cases taken <;>
      first
      | exact isEvicted
      | (refine (update_of_ne ?_ _ _).trans isEvicted
         rintro rfl
         simp_all [Evicted])
  rw [State.IoInv, taken.sameTable.1, taken.sameTable.2.1, taken.sameTable.2.2]
  refine inv.keep sameParts fun pid present => ⟨fun isEvicted => ?_, stays pid⟩
  by_contra notEvicted
  exact present (unread pid notEvicted isEvicted)

theorem PageStep.ioInv {a : PageAction Data}
    (owned : PidsOwned cfg.dramPartitionsCount s.pids s.nextPid)
    (taken : PageStep cfg s a s') : s'.IoInv := by
  have sameParts : ∀ pid e, s'.parts pid e = s.parts pid e := by
    intro pid e
    funext t
    cases taken with
    | initNewPage isAllocating inRange issues =>
      cases issues <;>
        exact update_view (f := s.threads) (part pid e)
          (by simp only [part, isAllocating]) t
    | _ =>
      first
      | rfl
      | exact update_view (f := s.threads) (part pid e)
          (by simp only [part, *]) t
  have sameEvicted : ∀ pid, s'.Evicted pid ↔ s.Evicted pid := by
    intro pid
    refine of_eq ?_
    cases taken with
    | initNewPage isAllocating inRange issues => cases issues <;> rfl
    | @link t _ new bf _ isAllocated | @createMeta t new bf isAllocated =>
      have unlinked : s.swips new = none :=
        owned.unlinked (by rw [isAllocated]; exact mem_singleton_self new)
      exact update_view (f := s.swips) (· = some .evicted) (by simp [unlinked]) pid
    | unlink isHot =>
      exact update_view (f := s.swips) (· = some .evicted) (by simp [isHot]) pid
    | _ => rfl
  rw [State.IoInv, taken.sameTable.1, taken.sameTable.2.1, taken.sameTable.2.2]
  exact inv.keep sameParts fun pid _ => sameEvicted pid

end

theorem Initial.ioInv (initial : Initial cfg s) : s.IoInv := by
  constructor <;> simp [parts, initial.noRead, initial.allIdle, part]

end TieredStore.BufferManager
