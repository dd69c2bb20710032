import TieredStore.RecordCache.Latches

namespace TieredStore.RecordCache

open Transition Function List

def State.Running (s : State) (w transaction : Nat) : Prop :=
  (s.transactions w).active = true ∧ (s.transactions w).id = transaction

def WalEntry.writer? : WalEntry → Option Nat
  | .insert _ => none
  | .update _ _ _ _ writer => some writer
  | .remove _ _ _ _ writer => some writer

/-- A running transaction keeps its log, writes to it, or has just begun. -/
def RunsOn (s s' : State) (a : Action) (w transaction : Nat) : Prop :=
  (s.Running w transaction ∧
      ((s'.transactions w).wal = (s.transactions w).wal ∨
        ∃ signal, a = .worker w (.write signal))) ∨
    (transaction = s.nextTransaction ∧ transaction < s'.nextTransaction ∧
      (s'.transactions w).wal = [] ∧ s.workers w = .idle ∧
      ∃ startTs, a = .worker w (.startTX startTs))

structure TxStep (s s' : State) (a : Action) : Prop where
  next : s.nextTransaction ≤ s'.nextTransaction
  running : ∀ w transaction, s'.Running w transaction → RunsOn s s' a w transaction
  ended : ∀ transaction, s'.outcome transaction = some .aborted →
    s.outcome transaction = some .aborted ∨ ∃ w, s.Running w transaction ∧
        (s.transactions w).wal = [] ∧ (s'.transactions w).active = false
  busy : ∀ w, s.workers w ≠ .idle → s'.transactions w = s.transactions w ∨
      ((s'.transactions w).active = (s.transactions w).active ∧
        ∃ signal, a = .worker w (.write signal))

namespace TxStep

variable {cfg : Config} {s s' : State} {a : Action} {actor : Nat} {tx : WorkerTx}

theorem quiet (transactions : s'.transactions = s.transactions)
    (next : s'.nextTransaction = s.nextTransaction)
    (outcome : s'.outcome = s.outcome) : TxStep s s' a where
  next := le_of_eq next.symm
  running w transaction runs := by
    rw [State.Running, transactions] at runs
    exact .inl ⟨runs, .inl (by rw [transactions])⟩
  ended transaction aborted := .inl (outcome ▸ aborted)
  busy w _ := .inl (by rw [transactions])

theorem running_of_update (transactions : s'.transactions = update s.transactions actor tx)
    (own : tx.active = true → RunsOn s s' a actor tx.id) :
    ∀ w transaction, s'.Running w transaction → RunsOn s s' a w transaction := by
  intro w transaction ⟨active, isId⟩
  by_cases acts : w = actor
  · subst acts
    rw [transactions, update_self] at active isId
    exact isId ▸ own active
  · have same : s'.transactions w = s.transactions w := by
      rw [transactions, update_of_ne acts]
    rw [same] at active isId
    exact .inl ⟨⟨active, isId⟩, .inl (by rw [same])⟩

theorem busy_of_idle (pc : s.workers actor = .idle)
    (transactions : s'.transactions = update s.transactions actor tx) :
    ∀ w, s.workers w ≠ .idle → s'.transactions w = s.transactions w ∨
        ((s'.transactions w).active = (s.transactions w).active ∧
          ∃ signal, a = .worker w (.write signal)) := by
  intro w isBusy
  have ne : w ≠ actor := fun same => isBusy (same ▸ pc)
  exact .inl (by rw [transactions, update_of_ne ne])

theorem worker {own : WorkerAction} (taken : WorkerStep cfg s actor own s') :
    TxStep s s' (.worker actor own) := by
  cases taken with
  | startTX pc =>
    refine ⟨Nat.le_succ _, running_of_update rfl fun _ => ?_, fun _ => .inl, busy_of_idle pc rfl⟩
    refine .inr ⟨rfl, Nat.lt_succ_self _, ?_, pc, _, rfl⟩
    simp
  | write =>
    refine ⟨le_refl _, running_of_update rfl fun active => ?_, fun _ => .inl,
      fun w _ => ?_⟩
    · exact .inl ⟨⟨active, rfl⟩, .inr ⟨_, rfl⟩⟩
    · by_cases acts : w = actor
      · subst acts
        exact .inr ⟨by simp, _, rfl⟩
      · exact .inl (by simp [acts])
  | commitTX pc =>
    refine ⟨le_refl _, running_of_update rfl fun ended => ?_, fun _ aborted => ?_,
      busy_of_idle pc rfl⟩
    · simp at ended
    · left
      simp only [update_apply] at aborted
      split at aborted
      · simp at aborted
      · exact aborted
  | abortTX pc active =>
    refine ⟨le_refl _, running_of_update rfl fun active => ?_, fun _ => .inl,
      busy_of_idle pc rfl⟩
    refine .inl ⟨⟨active, rfl⟩, .inl ?_⟩
    simp
  | abortDone pc active aborting undone =>
    refine ⟨le_refl _, running_of_update rfl fun ended => ?_,
      fun transaction aborted => ?_, busy_of_idle pc rfl⟩
    · simp at ended
    · simp only [update_apply] at aborted
      split at aborted
      · rename_i isOwn
        exact .inr ⟨actor, ⟨active, isOwn.symm⟩, undone, by simp⟩
      · exact .inl aborted
  | _ => exact quiet rfl rfl rfl

end TxStep

theorem txStep_of_step {cfg : Config} {s s' : State} {a : Action}
    (taken : step cfg s a = some s') : TxStep s s' a := by
  cases step_cases taken with
  | worker stepped => exact .worker stepped
  | promote stepped | forward stepped | sieve stepped | rescue stepped | page stepped =>
    cases stepped <;> exact .quiet rfl rfl rfl

/-- A version of the key by this writer: the writer did not abort, and while it
runs the given log of its worker lists the key. -/
structure Backed (s : State) (logOf : Nat → List WalEntry) (key : Bytes) (writer : Nat) : Prop where
  begun : writer < s.nextTransaction
  kept : s.outcome writer ≠ some .aborted
  listed : ∀ w, s.Running w writer → ∃ e ∈ logOf w, e.key = key

def logAt (worker : Nat) (log : List WalEntry) : Nat → List WalEntry :=
  fun other => if other = worker then log else []

/-- Each entry of a log brings back a version that the older part of the log
can take back, if it has to. -/
def Logged (s : State) (w : Nat) : List WalEntry → Prop
  | [] => True
  | e :: older =>
    (∀ writer, e.writer? = some writer →
      Backed s (logAt w older) e.key writer) ∧
      Logged s w older

structure LogInv (s : State) : Prop where
  begun : ∀ w transaction, s.Running w transaction →
    transaction < s.nextTransaction ∧ s.outcome transaction ≠ some .aborted
  unused : ∀ transaction, s.nextTransaction ≤ transaction → s.outcome transaction ≠ some .aborted
  distinct : ∀ w w' transaction, s.Running w transaction → s.Running w' transaction → w = w'
  stored : ∀ key tuple, s.leaves.Stores key tuple →
    Backed s (fun w => (s.transactions w).wal) key tuple.writer
  logged : ∀ w, (s.transactions w).active = true → Logged s w (s.transactions w).wal
  section_active : ∀ w sect stage, s.workers w = .busy sect stage → (s.transactions w).active = true
  undoes : ∀ w sect e, s.workers w = .busy sect .latched → sect.op = .undo e →
    sect.key = e.key ∧ ∃ older, (s.transactions w).wal = e :: older

/-- An update or remove overwrites a committed version or one of its own. -/
def OverwritesSettled (s : State) (a : Action) : Prop :=
  ∀ w signal sect stage tuple other, a = .worker w (.write signal) →
    s.workers w = .busy sect stage → sect.invalidates = true →
    s.leaves.Stores sect.key tuple → s.Running other tuple.writer →
    other = w

variable {cfg : Config} {s s' : State} {a : Action}
  {logOf logOf' : Nat → List WalEntry} {key : Bytes} {writer : Nat} {transaction : Nat}

theorem Backed.step (backed : Backed s logOf key writer) (tx : TxStep s s' a)
    (keeps : ∀ w, s.Running w writer → s'.Running w writer →
      ∀ e ∈ logOf w, e.key = key → ∃ e ∈ logOf' w, e.key = key)
    (spent : ∀ w, (s.transactions w).wal = [] →
      (s'.transactions w).active = false → logOf w = []) :
    Backed s' logOf' key writer where
  begun := lt_of_lt_of_le backed.begun tx.next
  kept aborted := by
    rcases tx.ended writer aborted with before | ⟨w, runs, undone, ended⟩
    · exact backed.kept before
    · obtain ⟨e, mem, -⟩ := backed.listed w runs
      simp [spent w undone ended] at mem
  listed w runs := by
    rcases tx.running w writer runs with ⟨before, -⟩ | ⟨isNew, -⟩
    · obtain ⟨e, mem, isKey⟩ := backed.listed w before
      exact keeps w before runs e mem isKey
    · exact absurd backed.begun (by simp [isNew])

theorem Logged.step {w : Nat} {log : List WalEntry}
    (logged : Logged s w log) (tx : TxStep s s' a)
    (active : (s'.transactions w).active = true) : Logged s' w log := by
  induction log with
  | nil => trivial
  | cons e _ ih =>
    refine ⟨fun writer isWriter => ?_, ih logged.2⟩
    refine (logged.1 writer isWriter).step tx
      (fun _ _ _ e mem isKey => ⟨e, mem, isKey⟩) fun other _ ended => ?_
    have ne : other ≠ w := by
      intro same
      simp [← same, ended] at active
    simp [logAt, ne]

namespace LogInv

section

variable (tx : TxStep s s' a)
include tx

theorem begun_step (inv : LogInv s) {w : Nat} (runs : s'.Running w transaction) :
    transaction < s'.nextTransaction ∧ s'.outcome transaction ≠ some .aborted := by
  rcases tx.running w transaction runs with ⟨before, -⟩ | ⟨isNew, isBegun, -⟩
  · obtain ⟨isBegun, kept⟩ := inv.begun w transaction before
    refine ⟨lt_of_lt_of_le isBegun tx.next, fun aborted => ?_⟩
    rcases tx.ended transaction aborted with earlier | ⟨w', runs', -, ended⟩
    · exact kept earlier
    · cases inv.distinct w w' transaction before runs'
      simp [runs.1] at ended
  · refine ⟨isBegun, fun aborted => ?_⟩
    rcases tx.ended transaction aborted with earlier | ⟨w', runs', -⟩
    · exact inv.unused transaction (le_of_eq isNew.symm) earlier
    · exact absurd (inv.begun w' transaction runs').1 (by simp [isNew])

theorem unused_step (inv : LogInv s) (isUnused : s'.nextTransaction ≤ transaction) :
    s'.outcome transaction ≠ some .aborted := by
  intro aborted
  have isUnused := le_trans tx.next isUnused
  rcases tx.ended transaction aborted with earlier | ⟨w, runs, -⟩
  · exact inv.unused transaction isUnused earlier
  · exact absurd (inv.begun w transaction runs).1 (not_lt.mpr isUnused)

theorem distinct_step (inv : LogInv s)
    {w w' transaction : Nat} (runs : s'.Running w transaction)
    (runs' : s'.Running w' transaction) : w = w' := by
  rcases tx.running w transaction runs with
      ⟨before, -⟩ | ⟨isNew, -, -, -, startTs, isStart⟩ <;>
    rcases tx.running w' transaction runs' with ⟨before', -⟩ | ⟨isNew', -, -, -, startTs', isStart'⟩
  · exact inv.distinct w w' transaction before before'
  · exact absurd (inv.begun w transaction before).1 (by simp [isNew'])
  · exact absurd (inv.begun w' transaction before').1 (by simp [isNew])
  · cases isStart.symm.trans isStart'
    rfl

end

variable {w : Nat} {signal : Bool} {sect : LeafSection}
  {stage : WorkerStage} {e : WalEntry} {tuple : ChainedTuple}

theorem busy_of_write (taken : RecordCache.step cfg s (.worker w (.write signal)) = some s') :
    ∃ sect stage, s.workers w = .busy sect stage := by
  simp only [step] at taken
  split at taken
  · cases workerStep_cases taken with
    | write pc => exact ⟨_, _, pc⟩
  · simp at taken

section

variable (inv : LogInv s)
include inv

section

variable (busy : s.workers w = .busy sect stage)
include busy

theorem backed_overwritten {old : ChainedTuple}
    (settled : OverwritesSettled s (.worker w (.write signal)))
    (tx : TxStep s s' (.worker w (.write signal)))
    (overwrites : sect.invalidates = true) (stores : s.leaves.Stores sect.key old) :
    Backed s' (logAt w (s.transactions w).wal) sect.key old.writer := by
  refine (inv.stored sect.key old stores).step tx ?_ fun _ undone _ => undone
  intro other runs _ e mem isKey
  cases settled w signal sect stage old other rfl busy overwrites stores runs
  exact ⟨e, by simpa [logAt] using mem, isKey⟩

theorem undoes_of_mayWrite (mayWrite : sect.mayWrite stage = true) (op : sect.op = .undo e) :
    sect.key = e.key ∧ ∃ older, (s.transactions w).wal = e :: older := by
  cases stage with
  | latched => exact inv.undoes w sect e busy op
  | _ => simp [LeafSection.mayWrite, LeafSection.invalidates, op] at mayWrite

theorem logged_write (leaf : LeafInv s)
    (settled : OverwritesSettled s (.worker w (.write signal)))
    (taken : RecordCache.step cfg s (.worker w (.write signal)) = some s') :
    Logged s' w (s'.transactions w).wal := by
  have tx := txStep_of_step taken
  obtain ⟨mayWrite, -, transactions⟩ := leaf.write_of_step busy taken
  have located := (leaf.occupies w sect stage busy).located
    (by rintro rfl; simp [LeafSection.mayWrite] at mayWrite)
  have active := inv.section_active w sect stage busy
  have log : Logged s' w (s.transactions w).wal :=
    (inv.logged w active).step tx (by rw [transactions]; simpa using active)
  have overwritten : sect.invalidates = true → ∀ old,
      (s.leaves.frames sect.frame).slots[sect.slot]? =
        some ⟨sect.key, old⟩ →
      Backed s' (logAt w (s.transactions w).wal) sect.key
        old.writer := fun overwrites old atSlot =>
    inv.backed_overwritten busy settled tx overwrites (leaf.stores_old busy atSlot)
  rw [transactions, update_self]
  simp only [LeafSection.Located] at located
  cases op : sect.op with
  | insert =>
    simp only [LeafSection.logged, op]
    exact ⟨by simp [WalEntry.writer?], log⟩
  | update | remove =>
    simp only [op] at located
    obtain ⟨old, atSlot⟩ := located
    simp only [LeafSection.logged, op, atSlot, Logged, WalEntry.writer?, Option.some.injEq,
      forall_eq']
    exact ⟨overwritten (by simp [LeafSection.invalidates, op]) old atSlot, log⟩
  | undo =>
    obtain ⟨-, _, wal⟩ := inv.undoes_of_mayWrite busy mayWrite op
    rw [wal] at log ⊢
    simp only [LeafSection.logged, op]
    exact log.2

theorem mem_logged {slot : Option LeafSlot} (mayWrite : sect.mayWrite stage = true)
    (mem : e ∈ (s.transactions w).wal) (ne : e.key ≠ sect.key) :
    e ∈ sect.logged slot (s.transactions w).wal := by
  unfold LeafSection.logged
  split
  · exact mem_cons_of_mem _ mem
  · rename_i undone _ op
    obtain ⟨sameKey, older, wal⟩ := inv.undoes_of_mayWrite busy mayWrite op
    rw [wal] at mem ⊢
    rcases mem_cons.mp mem with rfl | isOlder
    · exact absurd sameKey.symm ne
    · exact isOlder
  · exact mem_cons_of_mem _ mem
  · exact mem_cons_of_mem _ mem
  · exact mem

end

theorem backed_own (tx : TxStep s s' a) (runs : s'.Running w (s.transactions w).id)
    (listed : ∃ e ∈ (s'.transactions w).wal, e.key = key) :
    Backed s' (fun w => (s'.transactions w).wal) key (s.transactions w).id := by
  obtain ⟨isBegun, kept⟩ := inv.begun_step tx runs
  refine ⟨isBegun, kept, fun other runs' => ?_⟩
  cases inv.distinct_step tx runs runs'
  exact listed

theorem stored_write (leaf : LeafInv s) (busy : s.workers w = .busy sect stage)
    (taken : RecordCache.step cfg s (.worker w (.write signal)) = some s')
    (stores : s'.leaves.Stores key tuple) :
    Backed s' (fun w => (s'.transactions w).wal) key tuple.writer := by
  have tx := txStep_of_step taken
  obtain ⟨mayWrite, rewrites, transactions⟩ := leaf.write_of_step busy taken
  have others : ∀ other, other ≠ w →
      (s'.transactions other).wal = (s.transactions other).wal := by
    intro other ne
    rw [transactions, update_of_ne ne]
  have own : (s'.transactions w).wal = sect.logged
      (s.leaves.frames sect.frame).slots[sect.slot]?
      (s.transactions w).wal := by
    rw [transactions, update_self]
  have runs : s'.Running w (s.transactions w).id := by
    rw [State.Running, transactions, update_self]
    exact ⟨inv.section_active w sect stage busy, rfl⟩
  by_cases sameKey : key = sect.key
  · subst sameKey
    have outcome := rewrites.own tuple stores
    unfold LeafSection.outcome at outcome
    cases op : sect.op with
    | insert =>
      simp only [op] at outcome
      subst outcome
      refine inv.backed_own tx runs ⟨.insert sect.key, ?_, rfl⟩
      simp [own, LeafSection.logged, op]
    | update | remove =>
      simp only [op] at outcome
      obtain ⟨old, atSlot, rfl⟩ := outcome
      refine inv.backed_own tx runs ?_
      rw [own, atSlot]
      simp only [LeafSection.logged, op]
      exact ⟨_, mem_cons_self, rfl⟩
    | undo e =>
      -- the entry brings back a version that the rest of the log backs
      obtain ⟨isKey, older, wal⟩ := inv.undoes_of_mayWrite busy mayWrite op
      have log := inv.logged w (inv.section_active w sect stage busy)
      rw [wal] at log own
      simp only [LeafSection.logged, op] at own
      have restored : ∀ writer, e.writer? = some writer →
          Backed s' (fun w => (s'.transactions w).wal)
            sect.key writer := by
        intro writer isWriter
        rw [isKey]
        refine (log.1 writer isWriter).step tx (fun other _ _ e' mem => ?_) fun other undone _ => ?_
        · simp only [logAt] at mem
          split at mem
          · rename_i isWorker
            rw [isWorker, own]
            exact fun isEntry => ⟨e', mem, isEntry⟩
          · simp at mem
        · have ne : other ≠ w := by
            intro same
            simp [same, wal] at undone
          simp [logAt, ne]
      cases e with
      | insert => simp [op] at outcome
      | update _ _ _ _ writer | remove _ _ _ _ writer =>
        simp only [op] at outcome
        obtain ⟨old, -, rfl⟩ := outcome
        exact restored writer rfl
  · have before := (rewrites.others key tuple sameKey).mp stores
    refine (inv.stored key tuple before).step tx (fun other _ _ e mem isKey => ?_)
      fun _ undone _ => undone
    refine ⟨e, ?_, isKey⟩
    by_cases isWorker : other = w
    · subst isWorker
      rw [own]
      exact inv.mem_logged busy mayWrite mem (isKey ▸ sameKey)
    · rw [others other isWorker]
      exact mem

variable (taken : RecordCache.step cfg s a = some s')
include taken

theorem stored_step (leaf : LeafInv s) (stores : s'.leaves.Stores key tuple) :
    Backed s' (fun w => (s'.transactions w).wal) key tuple.writer := by
  have tx := txStep_of_step taken
  by_cases isWrite : ∃ w signal, a = .worker w (.write signal)
  · obtain ⟨w, signal, rfl⟩ := isWrite
    obtain ⟨_, _, busy⟩ := busy_of_write taken
    exact inv.stored_write leaf busy taken stores
  · rcases (leaf.step taken).stores with same | ⟨w, signal, -, -, isAction, -⟩
    · have backed := inv.stored key tuple ((same key tuple).mp stores)
      refine backed.step tx (fun w _ runs' e mem isKey => ?_) fun _ undone _ => undone
      rcases tx.running w tuple.writer runs' with ⟨-, log | ⟨signal, isAction⟩⟩ | ⟨isNew, -⟩
      · exact ⟨e, log ▸ mem, isKey⟩
      · exact absurd ⟨w, signal, isAction⟩ isWrite
      · exact absurd backed.begun (by simp [isNew])
    · exact absurd ⟨w, signal, isAction⟩ isWrite

theorem logged_step (leaf : LeafInv s) (settled : OverwritesSettled s a)
    (active : (s'.transactions w).active = true) :
    Logged s' w (s'.transactions w).wal := by
  have tx := txStep_of_step taken
  rcases tx.running w _ ⟨active, rfl⟩ with
    ⟨⟨active₀, -⟩, same | ⟨signal, rfl⟩⟩ | ⟨-, -, empty, -⟩
  · rw [same]
    exact (inv.logged w active₀).step tx active
  · obtain ⟨_, _, busy⟩ := busy_of_write taken
    exact inv.logged_write busy leaf settled taken
  · rw [empty]
    trivial

end

variable (taken : RecordCache.step cfg s a = some s')
include taken

theorem transactions_of_section
    (enters : (∃ op key position, a = .worker w (.latch op key position)) ∨
      a = .worker w .undoNext) : s'.transactions = s.transactions := by
  rcases enters with ⟨op, key, position, rfl⟩ | rfl
  all_goals
    simp only [step] at taken
    split at taken
    · cases workerStep_cases taken
      rfl
    · simp at taken

theorem section_active_step (inv : LogInv s) (busy : s'.workers w = .busy sect stage) :
    (s'.transactions w).active = true := by
  rcases section_of_step taken busy with
    ⟨stage₀, old, -⟩ | ⟨-, active, ⟨op, key, position, isLatch, -⟩ | ⟨_, _, isUndo, -⟩⟩
  · have active := inv.section_active w sect stage₀ old
    rcases (txStep_of_step taken).busy w (by simp [old]) with same | ⟨same, -⟩
    · rwa [same]
    · rwa [same]
  · rwa [transactions_of_section taken (.inl ⟨op, key, position, isLatch⟩)]
  · rwa [transactions_of_section taken (.inr isUndo)]

theorem undoes_step (inv : LogInv s) (busy : s'.workers w = .busy sect .latched)
    (op : sect.op = .undo e) :
    sect.key = e.key ∧ ∃ older, (s'.transactions w).wal = e :: older := by
  rcases section_of_step taken busy with
    ⟨stage₀, old, isLatched⟩ |
      ⟨-, -, ⟨_, _, _, -, forward, sought, -⟩ | ⟨_, older, isUndo, wal, sought, -⟩⟩
  · cases isLatched rfl
    rcases (txStep_of_step taken).busy w (by simp [old]) with same | ⟨-, _, rfl⟩
    · rw [same]
      exact inv.undoes w sect e old op
    · -- a write leaves its section in another stage
      simp only [step] at taken
      split at taken
      · cases workerStep_cases taken
        simp at busy
      · simp at taken
  · exact absurd (sought.op_eq.symm.trans op) (forward e)
  · cases sought.op_eq.symm.trans op
    exact ⟨sought.key_eq, older, by rw [transactions_of_section taken (.inr isUndo), wal]⟩

theorem step (inv : LogInv s) (leaf : LeafInv s) (settled : OverwritesSettled s a) : LogInv s' where
  begun _ _ runs := inv.begun_step (txStep_of_step taken) runs
  unused _ isUnused := inv.unused_step (txStep_of_step taken) isUnused
  distinct _ _ _ runs runs' := inv.distinct_step (txStep_of_step taken) runs runs'
  stored _ _ stores := inv.stored_step taken leaf stores
  logged _ active := inv.logged_step taken leaf settled active
  section_active _ _ _ busy := inv.section_active_step taken busy
  undoes _ _ _ busy op := inv.undoes_step taken busy op

end LogInv

theorem Initial.logInv (initial : Initial s) : LogInv s := by
  have resting : ∀ w transaction, ¬ s.Running w transaction := by
    intro w transaction runs
    simp [State.Running, initial.transactions w] at runs
  constructor
  case begun => exact fun w transaction runs => absurd runs (resting _ _)
  case unused => simp [initial.outcome]
  case distinct => exact fun w w' transaction runs => absurd runs (resting _ _)
  case stored =>
    intro key tuple ⟨frame, live, mem⟩
    obtain ⟨slot, found⟩ := mem_iff_getElem?.mp mem
    rw [initial.loaded key frame slot tuple ⟨live, found⟩]
    exact ⟨by simp [initial.nextTransaction], by simp [initial.outcome],
      fun w runs => absurd runs (resting _ _)⟩
  case logged => simp [initial.transactions]
  case section_active => simp [initial.workers]
  case undoes => simp [initial.workers]

end TieredStore.RecordCache
