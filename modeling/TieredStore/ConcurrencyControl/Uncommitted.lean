import TieredStore.ConcurrencyControl.Effects

namespace TieredStore.ConcurrencyControl

open Function List ConcurrencyControl.Action State WorkerPc

variable {cfg : Config} {s s' : State} {a : Action} {w worker : Nat}

def WorkerPc.isOpen : WorkerPc → Bool
  | .running => true
  | .reading _ _ => true
  | .aborting => true
  | _ => false

def WorkerPc.starting : WorkerPc → Bool
  | .idle => false
  | .beforeRefresh .finish => false
  | .refreshing .finish _ => false
  | .running => false
  | .reading _ _ => false
  | .aborting => false
  | .committed _ => false
  | _ => true

def State.pending (state : State) (worker : Nat) : List Bytes :=
  if (state.workers worker).pc.isOpen then (state.workers worker).tx.wal else []

theorem State.pending_of_open (isOpen : (s.workers w).pc.isOpen = true) :
    s.pending w = (s.workers w).tx.wal :=
  if_pos isOpen

theorem State.pending_of_closed (closed : (s.workers w).pc.isOpen = false) : s.pending w = [] :=
  if_neg (by simp [closed])

theorem State.open_of_pending {key : Bytes} (mem : key ∈ s.pending w) :
    (s.workers w).pc.isOpen = true := by
  unfold pending at mem
  split at mem
  · assumption
  · contradiction

variable {level level' : TxIsolationLevel} {pc : WorkerPc} {pc' : WorkerPc} {tested : State}
  {me : Nat} {v version : Version}

theorem PcMove.isOpen (move : PcMove level pc level' pc')
    (isOpen : pc'.isOpen = true) : pc.isOpen = true ∨ pc.starting = true := by
  cases move with
  | startTX =>
    unfold afterStart at isOpen
    split at isOpen <;> split at isOpen <;> contradiction
  | @skipRefresh after => cases after <;> contradiction
  | @endRefresh after => cases after <;> contradiction
  | finish => split at isOpen <;> contradiction
  | _ => first | contradiction | exact .inl rfl | exact .inr rfl

theorem PcMove.starting (move : PcMove level pc level' pc')
    (starting : pc'.starting = true) : pc.starting = true ∨ pc = .idle := by
  cases move with
  | startTX => exact .inr rfl
  | @beginRefresh after | @refresh after | @skipRefresh after | @endRefresh after =>
    cases after <;> first | contradiction | exact .inl rfl
  | finishReadOnly | finish => split at starting <;> contradiction
  | _ => first | contradiction | exact .inl rfl

def StartInv (s : State) : Prop :=
  ∀ w, (s.workers w).pc.starting = true → (s.workers w).tx.wal = []

theorem wal_of_step (taken : step cfg s a = some s') (w : Nat) :
    (s'.workers w).tx.wal = (s.workers w).tx.wal ∨
      (s'.workers w).tx.wal = [] ∨ (s.workers w).pc.isOpen = true := by
  by_cases acts : w = a.actor
  · subst acts
    obtain ⟨-, stepped⟩ := step_cases taken
    cases stepped with
    | start stepped =>
      cases stepped with
      | startTX => exact .inr (.inl (by simp [actor]))
      | _ => exact .inl (by simp [setPc, actor])
    | refresh stepped =>
      refine .inl ?_
      cases stepped with
      | compareLatest | sendLwm => rw [actor, tx_setMarks]; rfl
      | _ => simp [setPc, actor]
    | access stepped =>
      cases stepped with
      | storeLatestWrite => exact .inl (by simp [actor])
      | _ => exact .inr (.inr (by simp_all [actor, isOpen]))
  · exact .inl (congrArg (fun its => its.tx.wal) (others_of_step taken acts).1)

theorem begins_of_idle (taken : step cfg s a = some s') (idle : (s.workers a.actor).pc = .idle) :
    (s'.workers a.actor).tx.wal = [] ∧ (s'.workers a.actor).tx.id = s.nextTransaction ∧
      s'.nextTransaction = s.nextTransaction + 1 := by
  obtain ⟨-, stepped⟩ := step_cases taken
  cases stepped with
  | start stepped =>
    cases stepped with
    | startTX => simp [actor]
    | _ => simp_all [actor]
  | refresh stepped | access stepped => cases stepped <;> simp_all [actor]

theorem WorkerPc.isOpen_of_starting (starting : pc.starting = true) : pc.isOpen = false := by
  cases pc <;> first | rfl | contradiction

section

variable (taken : step cfg s a = some s')
include taken

theorem StartInv.step (starts : StartInv s) : StartInv s' := by
  intro w starting
  by_cases acts : w = a.actor
  · subst acts
    rcases (pc_of_step taken).starting starting with before | idle
    · rcases wal_of_step taken a.actor with same | empty | isOpen
      · rw [same]
        exact starts _ before
      · exact empty
      · rw [isOpen_of_starting before] at isOpen
        contradiction
    · exact (begins_of_idle taken idle).1
  · obtain ⟨core, pc⟩ := others_of_step taken acts
    have wal : (s'.workers w).tx.wal = (s.workers w).tx.wal := congrArg (fun its => its.tx.wal) core
    rw [pc] at starting
    rw [wal]
    exact starts w starting

theorem pending_of_others (ne : w ≠ a.actor) : s'.pending w = s.pending w := by
  obtain ⟨core, pc⟩ := others_of_step taken ne
  have wal : (s'.workers w).tx.wal = (s.workers w).tx.wal := congrArg (fun its => its.tx.wal) core
  unfold pending
  rw [pc, wal]

theorem pending_of_closed (starts : StartInv s) (closed : (s.workers a.actor).pc.isOpen = false) :
    s'.pending a.actor = s.pending a.actor := by
  rw [State.pending_of_closed closed]
  cases isOpen : (s'.workers a.actor).pc.isOpen with
  | false => exact State.pending_of_closed isOpen
  | true =>
    rw [pending_of_open isOpen]
    rcases (pc_of_step taken).isOpen isOpen with before | starting
    · rw [closed] at before
      contradiction
    · rcases wal_of_step taken a.actor with same | empty | before
      · rw [same]
        exact starts _ starting
      · exact empty
      · rw [closed] at before
        contradiction

end

inductive TupleStep (cfg : Config) (s : State) (my : Nat) (a : Action)
    (s' : State) : Prop
  | quiet (tuples : s'.tuples = s.tuples) (outcome : s'.outcome = s.outcome)
    (log : s'.pending my = s.pending my)
  | push (key : Bytes) (change : Change) (currentTs : Nat) (v : Version)
    (isChange : a = .access my (.change key change currentTs))
    (pc : (s.workers my).pc = .running) (latched : s.notRead cfg key = true)
    (visible : (mayChange (s.markAsWrite my) my (s.tuples key) currentTs).1 = some true)
    (made : change.version? my (s.workers my).tx (s.tuples key) = some v)
    (tuples : s'.tuples = Function.update s.tuples key (v :: s.tuples key))
    (outcome : s'.outcome = s.outcome) (log : s'.pending my = key :: s.pending my)
  | pop (key : Bytes) (rest : List Bytes)
    (before : s.pending my = key :: rest) (latched : s.notRead cfg key = true)
    (tuples : s'.tuples = Function.update s.tuples key (s.tuples key).tail)
    (outcome : s'.outcome = s.outcome) (log : s'.pending my = rest)
  | ends (result : Outcome) (isOpen : (s.workers my).pc.isOpen = true)
    (undone : result = .aborted → s.pending my = []) (tuples : s'.tuples = s.tuples)
    (outcome : s'.outcome =
      Function.update s.outcome (s.workers my).tx.id (some result))
    (closed : (s'.workers my).pc.isOpen = false)

theorem Tested.tuples (test : Tested s me tested) :
    tested.tuples = s.tuples ∧ tested.outcome = s.outcome := by
  cases test <;> exact ⟨rfl, rfl⟩

theorem Tested.nextTransaction (test : Tested s me tested) :
    tested.nextTransaction = s.nextTransaction := by
  cases test <;> rfl

theorem Tested.pending (test : Tested s me tested) : tested.pending me = s.pending me := by
  unfold State.pending
  rw [test.tx, test.pc]

theorem State.pending_markAsWrite : (s.markAsWrite w).pending w = s.pending w := by
  simp [pending, markAsWrite]

theorem tuples_of_access {own : AccessAction} (stepped : AccessStep cfg s w own s') :
    TupleStep cfg s w (.access w own) s' ∨ (s'.tuples = s.tuples ∧ s'.outcome = s.outcome ∧
        (s.workers w).pc.isOpen = false) := by
  cases stepped with
  | @isVisibleForMe other txTs toWrite currentTs =>
    have tested := isVisibleForMe_tested s w other txTs toWrite currentTs
    exact .inl (.quiet tested.tuples.1 tested.tuples.2 tested.pending)
  | @change key change currentTs v pc writes loaded latched visible made =>
    have tested := mayChange_tested (s.markAsWrite w) w (s.tuples key) currentTs
    refine .inl (.push key change currentTs v rfl pc latched visible made ?_ ?_ ?_)
    · simp only [pushVersion, tested.tuples.1]
      rfl
    · exact tested.tuples.2
    · have isOpen : (s.workers w).pc.isOpen = true := by rw [pc]; rfl
      simp only [pending, pushVersion, tested.pc, tested.tx]
      simp [markAsWrite, isOpen]
  | @changeFails key change currentTs =>
    have tested := mayChange_tested (s.markAsWrite w) w (s.tuples key) currentTs
    refine .inl (.quiet tested.tuples.1 tested.tuples.2 ?_)
    rw [tested.pending, pending_markAsWrite]
  | lookup pc | notFound pc | abortTX pc =>
    refine .inl (.quiet rfl rfl ?_)
    simp [pending, setPc, pc, isOpen]
  | @check key v older currentTs _ pc =>
    have tested := isVisibleForMe_tested s w v.workerId ⟨false, v.txTs⟩ false currentTs
    refine .inl (.quiet tested.tuples.1 tested.tuples.2 ?_)
    simp only [pending, setPc, workers_setWorker, tested.tx, pc]
    split <;> rfl
  | commitTX pc =>
    refine .inl (.ends .committed ?_ ?_ rfl rfl ?_)
    · rw [pc]
      rfl
    · intro aborted
      contradiction
    · simp [isOpen]
  | commitReadOnly pc =>
    refine .inl (.ends .committed ?_ ?_ rfl rfl ?_)
    · rw [pc]
      rfl
    · intro aborted
      contradiction
    · simp only [setPc, workers_setWorker]
      split <;> rfl
  | storeLatestWrite pc => exact .inr ⟨rfl, rfl, by rw [pc]; rfl⟩
  | @undoNext key rest pc next latched =>
    refine .inl (.pop key rest ?_ latched rfl rfl ?_)
    · simp [pending, pc, next, isOpen]
    · simp [pending, pc, isOpen]
  | abortDone pc undone =>
    refine .inl (.ends .aborted ?_ ?_ rfl rfl ?_)
    · rw [pc]
      rfl
    · intro _
      simp [pending, undone]
    · simp [isOpen]

theorem tuples_of_start {own : StartAction} (stepped : StartStep cfg s w own s') :
    s'.tuples = s.tuples ∧ s'.outcome = s.outcome ∧ (s.workers w).pc.isOpen = false := by
  cases stepped <;> exact ⟨rfl, rfl, by simp [*, isOpen]⟩

theorem tuples_of_refresh {own : RefreshAction} (stepped : RefreshStep cfg s w own s') :
    s'.tuples = s.tuples ∧ s'.outcome = s.outcome ∧ (s.workers w).pc.isOpen = false := by
  cases stepped <;> exact ⟨rfl, rfl, by simp [*, isOpen]⟩

theorem tuples_of_step (starts : StartInv s) (taken : step cfg s a = some s') :
    TupleStep cfg s a.actor a s' := by
  have closed := pending_of_closed taken starts
  obtain ⟨-, stepped⟩ := step_cases taken
  cases stepped with
  | start stepped =>
    obtain ⟨tuples, outcome, isClosed⟩ := tuples_of_start stepped
    exact .quiet tuples outcome (closed isClosed)
  | refresh stepped =>
    obtain ⟨tuples, outcome, isClosed⟩ := tuples_of_refresh stepped
    exact .quiet tuples outcome (closed isClosed)
  | access stepped =>
    rcases tuples_of_access stepped with own | ⟨tuples, outcome, isClosed⟩
    · exact own
    · exact .quiet tuples outcome (closed isClosed)

def WorkerPc.active (pc : WorkerPc) : Bool := pc.isOpen || pc.starting

theorem WorkerPc.active_of_open (isOpen : pc.isOpen = true) : pc.active = true := by
  simp [active, isOpen]

theorem PcMove.active (move : PcMove level pc level' pc')
    (active : pc'.active = true) : pc.active = true ∨ pc = .idle := by
  rcases Bool.or_eq_true_iff.mp active with isOpen | starting
  · exact .inl (Bool.or_eq_true_iff.mpr (move.isOpen isOpen))
  · rcases move.starting starting with before | idle
    · exact .inl (Bool.or_eq_true_iff.mpr (.inr before))
    · exact .inr idle

section

variable (taken : step cfg s a = some s')
include taken

theorem nextTransaction_of_step (busy : (s.workers a.actor).pc ≠ .idle) :
    s'.nextTransaction = s.nextTransaction := by
  obtain ⟨-, stepped⟩ := step_cases taken
  cases stepped with
  | start stepped =>
    cases stepped with
    | startTX pc => exact absurd pc busy
    | _ => rfl
  | refresh stepped => cases stepped <;> rfl
  | access stepped =>
    cases stepped with
    | isVisibleForMe | check => exact (isVisibleForMe_tested ..).nextTransaction
    | change => exact (mayChange_tested ..).nextTransaction
    | changeFails => exact (mayChange_tested ..).nextTransaction
    | _ => rfl

theorem id_of_step (w : Nat) : ((s'.workers w).tx.id = (s.workers w).tx.id ∧
        ((s'.workers w).pc.active = true → (s.workers w).pc.active = true)) ∨
      (w = a.actor ∧ (s.workers w).pc = .idle ∧ (s'.workers w).tx.id = s.nextTransaction ∧
        s'.nextTransaction = s.nextTransaction + 1) := by
  by_cases acts : w = a.actor
  · subst acts
    by_cases idle : (s.workers a.actor).pc = .idle
    · obtain ⟨-, id, next⟩ := begins_of_idle taken idle
      exact .inr ⟨rfl, idle, id, next⟩
    · refine .inl ⟨?_, ?_⟩
      · cases effect_of_step taken with
        | begins level isOlap isReadOnly pc => exact absurd pc idle
        | _ =>
          rename_i core _
          exact congrArg (fun its => its.tx.id) core
      · intro active
        exact ((pc_of_step taken).active active).resolve_right idle
  · obtain ⟨core, pc⟩ := others_of_step taken acts
    refine .inl ⟨congrArg (fun its => its.tx.id) core, ?_⟩
    rw [pc]
    exact id

theorem nextTransaction_mono : s.nextTransaction ≤ s'.nextTransaction := by
  by_cases idle : (s.workers a.actor).pc = .idle
  · have next := (begins_of_idle taken idle).2.2
    omega
  · exact le_of_eq (nextTransaction_of_step taken idle).symm

end

structure IdInv (s : State) : Prop where
  ids : ∀ w, (s.workers w).tx.id < s.nextTransaction
  unused : ∀ id, s.nextTransaction ≤ id → s.outcome id = none
  alive : ∀ w, (s.workers w).pc.active = true → s.outcome (s.workers w).tx.id = none
  distinct : ∀ w other, w ≠ other → (s.workers w).pc.active = true →
    (s.workers other).pc.active = true → (s.workers w).tx.id ≠ (s.workers other).tx.id

theorem outcome_of_step (starts : StartInv s) (taken : step cfg s a = some s') :
    s'.outcome = s.outcome ∨ ((s.workers a.actor).pc.isOpen = true ∧
        (s'.workers a.actor).pc.active = false ∧ ∃ result, s'.outcome =
          update s.outcome (s.workers a.actor).tx.id (some result)) := by
  cases tuples_of_step starts taken with
  | quiet tuples outcome => exact .inl outcome
  | push key _ _ v _ pc latched _ _ tuples outcome => exact .inl outcome
  | pop key _ before latched tuples outcome => exact .inl outcome
  | ends result isOpen _ tuples outcome closed =>
    refine .inr ⟨isOpen, ?_, result, outcome⟩
    cases starting : (s'.workers a.actor).pc.starting with
    | false => simp [active, closed, starting]
    | true =>
      rcases (pc_of_step taken).starting starting with before | idle
      · rw [isOpen_of_starting before] at isOpen
        contradiction
      · rw [idle] at isOpen
        contradiction

namespace IdInv

theorem step (inv : IdInv s) (starts : StartInv s) (taken : step cfg s a = some s') : IdInv s' where
  ids w := by
    have grows := nextTransaction_mono taken
    rcases id_of_step taken w with ⟨same, -⟩ | ⟨-, -, new, next⟩
    · rw [same]
      exact lt_of_lt_of_le (inv.ids w) grows
    · omega
  unused id unused := by
    have grows := nextTransaction_mono taken
    have before := inv.unused id (by omega)
    rcases outcome_of_step starts taken with same | ⟨-, -, result, updated⟩
    · rw [same]
      exact before
    · have used := inv.ids a.actor
      rw [updated, update_of_ne (by omega)]
      exact before
  alive w active := by
    rcases outcome_of_step starts taken with same | ⟨isOpen, ended, result, updated⟩
    · rw [same]
      rcases id_of_step taken w with ⟨sameId, before⟩ | ⟨-, -, new, -⟩
      · rw [sameId]
        exact inv.alive w (before active)
      · rw [new]
        exact inv.unused _ (le_refl _)
    · have ne : w ≠ a.actor := by
        rintro rfl
        rw [ended] at active
        contradiction
      rcases id_of_step taken w with ⟨sameId, before⟩ | ⟨acts, -⟩
      · rw [sameId, updated, update_of_ne]
        · exact inv.alive w (before active)
        · exact inv.distinct w a.actor ne (before active) (active_of_open isOpen)
      · exact absurd acts ne
  distinct w other ne active active' := by
    rcases id_of_step taken w with ⟨same, before⟩ | ⟨acts, -, new, -⟩
    · rcases id_of_step taken other with ⟨same', before'⟩ | ⟨-, -, new', -⟩
      · rw [same, same']
        exact inv.distinct w other ne (before active) (before' active')
      · have := inv.ids w
        omega
    · rcases id_of_step taken other with ⟨same', -⟩ | ⟨acts', -⟩
      · have := inv.ids other
        omega
      · exact absurd (acts.trans acts'.symm) ne

end IdInv

structure State.Own (s : State) (w : Nat) (v : Version) : Prop where
  workerId : v.workerId = w
  writer : v.writer = (s.workers w).tx.id
  txTs : v.txTs = (s.workers w).tx.startTs

/-- A chain: in front the versions of one open transaction, one for each time
that its log names the key, and then committed ones. -/
structure Chain (s : State) (key : Bytes) (owner : Nat) (front back : List Version) : Prop where
  split : s.tuples key = front ++ back
  committed : ∀ v ∈ back, s.outcome v.writer = some .committed
  own : ∀ v ∈ front, s.Own owner v
  logged : front.length = (s.pending owner).count key
  others : ∀ w, w ≠ owner → key ∉ s.pending w

def ChainInv (s : State) : Prop :=
  ∀ key, ∃ owner front back, Chain s key owner front back

section

variable (taken : step cfg s a = some s')
include taken

theorem startTs_of_open (isOpen : (s.workers w).pc.isOpen = true) :
    (s'.workers w).tx.startTs = (s.workers w).tx.startTs := by
  rcases startTs_of_step taken w with same | ⟨-, latched, -⟩
  · exact same
  · rw [latched] at isOpen
    contradiction

theorem State.Own.of_step (own : s.Own w v)
    (isOpen : (s.workers w).pc.isOpen = true) : s'.Own w v where
  workerId := own.workerId
  writer := by
    rcases id_of_step taken w with ⟨same, -⟩ | ⟨-, idle, -⟩
    · rw [same]
      exact own.writer
    · rw [idle] at isOpen
      contradiction
  txTs := by
    rw [startTs_of_open taken isOpen]
    exact own.txTs

theorem committed_of_step (ids : IdInv s) (starts : StartInv s) {id : Nat}
    (committed : s.outcome id = some .committed) : s'.outcome id = some .committed := by
  rcases outcome_of_step starts taken with same | ⟨isOpen, -, _, updated⟩
  · rw [same]
    exact committed
  · have alive := ids.alive _ (active_of_open isOpen)
    rw [updated, update_of_ne]
    · exact committed
    · rintro rfl
      rw [alive] at committed
      contradiction

end

theorem Change.own_of_version? {change : Change} {chain : List Version}
    (made : change.version? w (s.workers w).tx chain = some v) : s.Own w v := by
  cases chain with
  | nil =>
    cases change with
    | insert =>
      cases made
      exact ⟨rfl, rfl, rfl⟩
    | update => contradiction
    | remove => contradiction
  | cons =>
    cases change with
    | insert => contradiction
    | update =>
      cases made
      exact ⟨rfl, rfl, rfl⟩
    | remove =>
      simp only [version?] at made
      split at made
      · contradiction
      · cases made
        exact ⟨rfl, rfl, rfl⟩

namespace Chain

variable {key : Bytes} {owner : Nat} {front back : List Version}

theorem open_of_front (chain : Chain s key owner front back)
    (mem : v ∈ front) : (s.workers owner).pc.isOpen = true := by
  apply open_of_pending (count_pos_iff.mp _)
  · exact key
  · rw [← chain.logged]
    exact length_pos_of_mem mem

theorem mem_front (chain : Chain s key owner front back) (mem : v ∈ s.tuples key)
    (dirty : s.outcome v.writer ≠ some .committed) : v ∈ front := by
  rw [chain.split] at mem
  rcases mem_append.mp mem with inFront | inBack
  · exact inFront
  · exact absurd (chain.committed v inBack) dirty

theorem not_pending (chain : Chain s key owner [] back) (w : Nat) : key ∉ s.pending w := by
  by_cases isOwner : w = owner
  · subst isOwner
    exact count_eq_zero.mp chain.logged.symm
  · exact chain.others w isOwner

variable (chain : Chain s key owner front back) (taken : step cfg s a = some s')
  (starts : StartInv s) (ids : IdInv s)
include chain taken starts ids

theorem of_step (tuple : s'.tuples key = s.tuples key)
    (logs : ∀ w, (s'.pending w).count key = (s.pending w).count key) :
    Chain s' key owner front back where
  split := tuple.trans chain.split
  committed v mem := committed_of_step taken ids starts (chain.committed v mem)
  own v mem := (chain.own v mem).of_step taken (chain.open_of_front mem)
  logged := by
    rw [logs]
    exact chain.logged
  others w ne := by
    rw [← count_eq_zero, logs, count_eq_zero]
    exact chain.others w ne

theorem push (isOpen : (s.workers a.actor).pc.isOpen = true)
    (mine : front = [] ∨ owner = a.actor) (own : s.Own a.actor v)
    (tuple : s'.tuples key = v :: s.tuples key)
    (log : s'.pending a.actor = key :: s.pending a.actor) :
    Chain s' key a.actor (v :: front) back where
  split := by rw [tuple, chain.split, cons_append]
  committed older mem := committed_of_step taken ids starts (chain.committed older mem)
  own newer mem := by
    rcases mem_cons.mp mem with rfl | inFront
    · exact own.of_step taken isOpen
    · rcases mine with rfl | rfl
      · contradiction
      · exact (chain.own newer inFront).of_step taken isOpen
  logged := by
    rw [log, count_cons_self, length_cons]
    rcases mine with rfl | rfl
    · rw [count_eq_zero.mpr (chain.not_pending _)]
      rfl
    · rw [chain.logged]
  others w ne := by
    rw [pending_of_others taken ne]
    rcases mine with rfl | rfl
    · exact chain.not_pending w
    · exact chain.others w ne

theorem pop {rest : List Bytes} (before : s.pending a.actor = key :: rest)
    (tuple : s'.tuples key = (s.tuples key).tail) (log : s'.pending a.actor = rest) :
    Chain s' key a.actor front.tail back := by
  have mine : owner = a.actor := by
    by_contra ne
    apply chain.others a.actor (symm ne)
    rw [before]
    exact mem_cons_self
  subst mine
  have length := chain.logged
  rw [before, count_cons_self] at length
  cases front with
  | nil => simp at length
  | cons =>
    have isOpen := chain.open_of_front mem_cons_self
    constructor
    · rw [tuple, chain.split]
      rfl
    · intro v mem
      exact committed_of_step taken ids starts (chain.committed v mem)
    · intro v mem
      exact (chain.own v (mem_cons_of_mem _ mem)).of_step taken isOpen
    · rw [log]
      exact Nat.succ.inj length
    · intro w ne
      rw [pending_of_others taken ne]
      exact chain.others w ne

theorem ends {result : Outcome} (undone : result = .aborted → s.pending a.actor = [])
    (tuple : s'.tuples key = s.tuples key) (outcome : s'.outcome =
      update s.outcome (s.workers a.actor).tx.id (some result)) (closed : s'.pending a.actor = []) :
    ∃ owner front back, Chain s' key owner front back := by
  have stays := @committed_of_step cfg s s' a taken ids starts
  by_cases mine : owner = a.actor
  · subst mine
    refine ⟨a.actor, [], front ++ back, tuple.trans chain.split, ?_, ?_, ?_, ?_⟩
    · intro v mem
      rcases mem_append.mp mem with inFront | inBack
      · cases result with
        | committed => rw [outcome, (chain.own v inFront).writer, update_self]
        | aborted =>
          have length := chain.logged
          rw [undone rfl] at length
          exact absurd (length_pos_of_mem inFront) (by simp [length])
      · exact stays (chain.committed v inBack)
    · intro v mem
      contradiction
    · rw [closed]
      rfl
    · intro w ne
      rw [pending_of_others taken ne]
      exact chain.others w ne
  · refine ⟨owner, front, back, tuple.trans chain.split, ?_, ?_, ?_, ?_⟩
    · intro v mem
      exact stays (chain.committed v mem)
    · intro v mem
      exact (chain.own v mem).of_step taken (chain.open_of_front mem)
    · rw [pending_of_others taken mine]
      exact chain.logged
    · intro w ne
      by_cases acts : w = a.actor
      · subst acts
        rw [closed]
        exact not_mem_nil
      · rw [pending_of_others taken acts]
        exact chain.others w ne

end Chain

def Guarded (s : State) (w : Nat) : Prop :=
  ∀ key currentTs head older, s.tuples key = head :: older →
    (mayChange (s.markAsWrite w) w (s.tuples key) currentTs).1 = some true →
    s.outcome head.writer = some .committed ∨ head.workerId = w

theorem ChainInv.step (inv : ChainInv s) (ids : IdInv s) (starts : StartInv s)
    (guarded : Guarded s a.actor) (taken : step cfg s a = some s') : ChainInv s' := by
  intro key
  obtain ⟨owner, front, back, chain⟩ := inv key
  -- a log that changes at another key has as many entries for this one
  have logs {log : List Bytes} (own : s'.pending a.actor = log)
      (count : log.count key = (s.pending a.actor).count key) (w : Nat) :
      (s'.pending w).count key = (s.pending w).count key := by
    by_cases acts : w = a.actor
    · rw [acts, own, count]
    · rw [pending_of_others taken acts]
  cases tuples_of_step starts taken with
  | quiet tuples outcome log =>
    exact ⟨owner, front, back, chain.of_step taken starts ids (by rw [tuples]) (logs log rfl)⟩
  | push changed _ currentTs v _ pc latched visible made tuples outcome log =>
    have isOpen : (s.workers a.actor).pc.isOpen = true := by rw [pc]; rfl
    by_cases same : key = changed
    · subst same
      have mine : front = [] ∨ owner = a.actor := by
        cases front with
        | nil => exact .inl rfl
        | cons head older =>
          have own := chain.own head mem_cons_self
          rcases guarded key currentTs head (older ++ back) chain.split visible with
            committed | ours
          · have alive := ids.alive owner
              (active_of_open (chain.open_of_front mem_cons_self))
            rw [own.writer, alive] at committed
            contradiction
          · exact .inr (own.workerId.symm.trans ours)
      refine ⟨a.actor, v :: front, back, ?_⟩
      apply chain.push taken starts ids isOpen mine (Change.own_of_version? made) _ log
      rw [tuples, update_self]
    · refine ⟨owner, front, back, chain.of_step taken starts ids ?_ (logs log ?_)⟩
      · rw [tuples, update_of_ne same]
      · exact count_cons_of_ne (symm same)
  | pop changed _ before latched tuples outcome log =>
    by_cases same : key = changed
    · subst same
      refine ⟨a.actor, front.tail, back, chain.pop taken starts ids before ?_ log⟩
      rw [tuples, update_self]
    · refine ⟨owner, front, back, chain.of_step taken starts ids ?_ (logs log ?_)⟩
      · rw [tuples, update_of_ne same]
      · rw [before, count_cons_of_ne (symm same)]
  | ends _ isOpen undone tuples outcome closed =>
    exact chain.ends taken starts ids undone (by rw [tuples]) outcome
      (State.pending_of_closed closed)

end TieredStore.ConcurrencyControl
