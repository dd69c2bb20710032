import TieredStore.ConcurrencyControl.Effects

namespace TieredStore.ConcurrencyControl

open Transition List ConcurrencyControl.Action State WorkerPc WorkerState

variable {cfg : Config} {s s' : State} {a : Action}

def WorkerPc.leavesSI : WorkerPc → Bool
  | .switchingToRC => true
  | .beforeRefresh .clean => true
  | .refreshing .clean _ => true
  | _ => false

def PhaseInv (s : State) : Prop :=
  ∀ w, (s.workers w).pc.leavesSI = true → (s.workers w).tx.level.atLeastSI = false

variable {level level' : TxIsolationLevel} {pc pc' : WorkerPc} {w worker : Nat} {next : Nat}

theorem PcMove.leavesSI (move : PcMove level pc level' pc') (leaves : pc'.leavesSI = true) :
    level'.atLeastSI = false ∨ (level' = level ∧ pc.leavesSI = true) := by
  cases move with
  | startTX =>
    left
    unfold afterStart at leaves
    split at leaves
    · split at leaves <;> contradiction
    · simp_all
  | switchToRC => exact .inr ⟨rfl, rfl⟩
  | nothingToClean | rewrite =>
    unfold afterClean at leaves
    split at leaves <;> contradiction
  | @skipRefresh after => cases after <;> contradiction
  | @beginRefresh after | @refresh after =>
    cases after <;> first | contradiction | exact .inr ⟨rfl, rfl⟩
  | @endRefresh after => cases after <;> contradiction
  | finishReadOnly | finish => split at leaves <;> contradiction
  | _ => contradiction

theorem PhaseInv.step (phase : PhaseInv s) (taken : step cfg s a = some s') : PhaseInv s' := by
  intro w leaves
  by_cases acts : w = a.actor
  · subst acts
    rcases (pc_of_step taken).leavesSI leaves with weak | ⟨level, before⟩
    · exact weak
    · rw [level]
      exact phase _ before
  · obtain ⟨core, pc⟩ := others_of_step taken acts
    have level := congrArg (fun its => its.tx.level) core
    simp only [core_tx] at level
    rw [pc] at leaves
    rw [level]
    exact phase w leaves

theorem PcMove.inTransaction (move : PcMove level pc level' pc')
    (strong : level'.atLeastSI = true) (inside : pc'.inTransaction = true) :
    pc.inTransaction = true ∨ pc.leavesSI = true ∨ (pc = .latched ∧ pc' = .drawn) := by
  cases move with
  | startTX =>
    unfold afterStart at inside
    rw [if_pos strong] at inside
    split at inside <;> contradiction
  | draw => exact .inr (.inr ⟨rfl, rfl⟩)
  | @skipRefresh after | @endRefresh after =>
    cases after <;> first | contradiction | exact .inr (.inl rfl)
  | finishReadOnly | finish => split at inside <;> contradiction
  | _ => first | contradiction | exact .inl rfl

theorem snapshot_of_step (phase : PhaseInv s)
    (taken : step cfg s a = some s') (holds : s'.HasSnapshot w) : (s.HasSnapshot w ∧
        (s'.workers w).tx.startTs = (s.workers w).tx.startTs) ∨
      (w = a.actor ∧ (s.workers w).pc = .latched ∧ (s'.workers w).pc = .drawn ∧
        (s'.workers w).tx.startTs = s.globalClock ∧ s'.globalClock = s.globalClock + 1) := by
  obtain ⟨strong, inside⟩ := holds
  by_cases acts : w = a.actor
  · subst acts
    have level : (s'.workers a.actor).tx.level =
        (s.workers a.actor).tx.level ∨
        (s.workers a.actor).pc = .idle :=
      (level_of_step taken a.actor).imp_right And.left
    rcases (pc_of_step taken).inTransaction strong inside with before | leaves | ⟨latched, drawn⟩
    · rcases level with same | idle
      · rcases startTs_of_step taken a.actor with sameTs | ⟨-, latched, -⟩
        · exact .inl ⟨⟨same ▸ strong, before⟩, sameTs⟩
        · rw [latched] at before
          contradiction
      · rw [idle] at before
        contradiction
    · rcases level with same | idle
      · rw [same, phase _ leaves] at strong
        contradiction
      · rw [idle] at leaves
        contradiction
    · exact .inr ⟨rfl, latched, drawn, draw_of_latched taken latched⟩
  · obtain ⟨core, pc⟩ := others_of_step taken acts
    have tx := congrArg tx core
    simp only [core_tx] at tx
    rw [pc] at inside
    rw [tx] at strong
    exact .inl ⟨⟨strong, inside⟩, by rw [tx]⟩

theorem words_of_refresh {own : RefreshAction} (stepped : RefreshStep cfg s w own s') :
    s'.currentSnapshot = s.currentSnapshot := by
  cases stepped <;> rfl

theorem words_of_access {own : AccessAction} (stepped : AccessStep cfg s w own s') :
    s'.currentSnapshot = s.currentSnapshot := by
  cases stepped with
  | isVisibleForMe | check => exact (isVisibleForMe_tested ..).currentSnapshot
  | change | changeFails => exact (mayChange_tested ..).currentSnapshot
  | _ => rfl

structure WordStep (s s' : State) (w : Nat) : Prop where
  latches : (s.workers w).pc = .snapshotting → (s'.currentSnapshot w).latchBit = true
  holds : (s.workers w).pc = .latched → s'.currentSnapshot w = s.currentSnapshot w
  publishes : (s.workers w).pc = .drawn → (s'.currentSnapshot w).ts = (s.workers w).tx.startTs
  keeps : (s.workers w).pc.inTransaction = true → (s.workers w).pc ≠ .drawn →
    s'.currentSnapshot w = s.currentSnapshot w

theorem word_of_actor (taken : step cfg s a = some s') : WordStep s s' a.actor := by
  obtain ⟨-, stepped⟩ := step_cases taken
  cases stepped with
  | start stepped =>
    cases stepped <;> constructor <;>
      simp_all [setPc, setWorker, setSnapshot, actor, inTransaction]
  | refresh stepped =>
    have words := words_of_refresh stepped
    cases stepped <;> constructor <;> simp_all [actor]
  | access stepped =>
    have words := words_of_access stepped
    cases stepped <;> constructor <;> simp_all [actor]

theorem word_of_others (taken : step cfg s a = some s') {other : Nat} (ne : other ≠ a.actor) :
    s'.currentSnapshot other = s.currentSnapshot other := by
  obtain ⟨-, stepped⟩ := step_cases taken
  cases stepped with
  | start stepped =>
    cases stepped <;>
      simp_all [setPc, setWorker, setSnapshot, actor]
  | refresh stepped => rw [words_of_refresh stepped]
  | access stepped => rw [words_of_access stepped]

structure WordInv (s : State) : Prop where
  latched : ∀ w, (s.workers w).pc = .latched ∨
    (s.workers w).pc = .drawn → (s.currentSnapshot w).latchBit = true
  published : ∀ w, s.HasSnapshot w → (s.workers w).pc ≠ .drawn →
    (s.currentSnapshot w).ts = (s.workers w).tx.startTs

theorem PcMove.latched (move : PcMove level pc level' pc')
    (latched : pc' = .latched ∨ pc' = .drawn) : pc = .snapshotting ∨ pc = .latched := by
  cases move with
  | startTX =>
    unfold afterStart at latched
    split at latched <;> split at latched <;> simp at latched
  | nothingToClean | rewrite =>
    unfold afterClean at latched
    split at latched <;> simp at latched
  | @skipRefresh after | @endRefresh after => cases after <;> simp [AfterRefresh.pc] at latched
  | finishReadOnly | finish => split at latched <;> simp at latched
  | _ => simp_all

namespace WordInv

theorem step (words : WordInv s) (phase : PhaseInv s)
    (taken : step cfg s a = some s') : WordInv s' where
  latched w latched := by
    by_cases acts : w = a.actor
    · subst acts
      have own := word_of_actor taken
      rcases (pc_of_step taken).latched latched with snapshotting | wasLatched
      · exact own.latches snapshotting
      · rw [own.holds wasLatched]
        exact words.latched _ (.inl wasLatched)
    · rw [(others_of_step taken acts).2] at latched
      rw [word_of_others taken acts]
      exact words.latched w latched
  published w holds notDrawn := by
    rcases snapshot_of_step phase taken holds with ⟨before, sameTs⟩ | ⟨-, -, drawn, -⟩
    · rw [sameTs]
      by_cases acts : w = a.actor
      · subst acts
        have own := word_of_actor taken
        by_cases wasDrawn : (s.workers a.actor).pc = .drawn
        · exact own.publishes wasDrawn
        · rw [own.keeps before.2 wasDrawn]
          exact words.published _ before wasDrawn
      · rw [word_of_others taken acts]
        rw [(others_of_step taken acts).2] at notDrawn
        exact words.published w before notDrawn
    · exact absurd drawn notDrawn

end WordInv

inductive ScanMove (cfg : Config) (s : State) (w : Nat) :
    Nat → List (Nat × Nat) → Prop
  | begins : ScanMove cfg s w 0 []
  | stays {next set} (pc : (s.workers w).pc = .cleaning next set) :
    ScanMove cfg s w next set
  | skips {set} (pc : (s.workers w).pc = .cleaning w set) :
    ScanMove cfg s w (w + 1) set
  | scans {next set} (pc : (s.workers w).pc = .cleaning next set) (inside : next < cfg.workersCount)
    (unlatched : (s.currentSnapshot next).latchBit = false) :
    ScanMove cfg s w (next + 1)
      ((s.workers w).commitTree.keepFor (s.currentSnapshot next).ts set)

theorem PcMove.cleaning {set : List (Nat × Nat)}
    (move : PcMove level pc level' pc') (cleans : pc' = .cleaning next set) :
    pc = .beforeClean ∨ ∃ next set, pc = .cleaning next set := by
  cases move with
  | startTX =>
    unfold afterStart at cleans
    split at cleans <;> split at cleans <;> simp at cleans
  | @skipRefresh after | @endRefresh after => cases after <;> simp [AfterRefresh.pc] at cleans
  | finishReadOnly | finish => split at cleans <;> simp at cleans
  | _ => simp_all

theorem scan_of_actor (taken : step cfg s a = some s') {set : List (Nat × Nat)}
    (pc : (s'.workers a.actor).pc = .cleaning next set) : ScanMove cfg s a.actor next set ∧
      (s'.workers a.actor).core = (s.workers a.actor).core := by
  have cleans := (pc_of_step taken).cleaning pc
  obtain ⟨-, stepped⟩ := step_cases taken
  cases stepped with
  | start stepped =>
    cases stepped with
    | cleanIfNecessary =>
      simp only [actor, pc_setPc] at pc
      obtain ⟨rfl, rfl⟩ := pc
      exact ⟨.begins, core_setPc ..⟩
    | skipSelf was inside self =>
      simp only [actor, pc_setPc] at pc
      obtain ⟨rfl, rfl⟩ := pc
      subst self
      exact ⟨.skips was, core_setPc ..⟩
    | scanSnapshot was inside other unlatched =>
      simp only [actor, pc_setPc] at pc
      obtain ⟨rfl, rfl⟩ := pc
      exact ⟨.scans was inside unlatched, core_setPc ..⟩
    | nothingToClean =>
      simp only [actor, pc_setPc, afterClean] at pc
      split at pc <;> contradiction
    | rewriteTree =>
      simp only [actor, workers_setWorker, afterClean] at pc
      split at pc <;> contradiction
    | _ => simp_all [actor]
  | refresh stepped | access stepped => cases stepped <;> simp_all [actor]

theorem scan_of_step (taken : step cfg s a = some s') {w next : Nat}
    {set : List (Nat × Nat)} (pc : (s'.workers w).pc = .cleaning next set) :
    ScanMove cfg s w next set ∧ (s'.workers w).core = (s.workers w).core := by
  by_cases acts : w = a.actor
  · subst acts
    exact scan_of_actor taken pc
  · obtain ⟨core, samePc⟩ := others_of_step taken acts
    rw [samePc] at pc
    exact ⟨.stays pc, core⟩

/-- The pairs hold all that the reader may be told of the owner's history: its
latest entry, and the one before the reader's snapshot. -/
structure Covers (s : State) (owner reader : Nat) (pairs : List (Nat × Nat)) : Prop where
  latest : ∀ pair, IsLatest (s.workers owner).history pair → pair ∈ pairs
  lcb : s.HasSnapshot reader → ∀ pair,
    IsLcb (s.workers owner).history (s.workers reader).tx.startTs pair → pair ∈ pairs

structure TreeInv (cfg : Config) (s : State) : Prop where
  sorted : ∀ w, SortedLog (s.workers w).history
  past : ∀ w, ∀ pair ∈ (s.workers w).history, pair.1 < s.globalClock
  started : ∀ w, (s.workers w).tx.startTs < s.globalClock
  sortedTree : ∀ w, SortedLog (s.workers w).commitTree.array
  inside : ∀ w, (s.workers w).commitTree.array ⊆ (s.workers w).history
  covers : ∀ owner reader, reader ≠ owner → reader < cfg.workersCount →
    Covers s owner reader (s.workers owner).commitTree.array
  scan : ∀ w next set, (s.workers w).pc = .cleaning next set →
    SortedLog set ∧ set ⊆ (s.workers w).commitTree.array ∧
      ∀ reader < next, reader ≠ w → Covers s w reader set

namespace Covers

variable {owner reader : Nat} {pairs more : List (Nat × Nat)}

section

variable (covers : Covers s owner reader pairs)
include covers

theorem mono (subset : pairs ⊆ more) : Covers s owner reader more where
  latest pair isLatest := subset (covers.latest pair isLatest)
  lcb holds pair isLcb := subset (covers.lcb holds pair isLcb)

theorem of_step (inv : TreeInv cfg s) (phase : PhaseInv s) (taken : step cfg s a = some s')
    (same : (s'.workers owner).history = (s.workers owner).history) :
    Covers s' owner reader pairs where
  latest pair isLatest := covers.latest pair (same ▸ isLatest)
  lcb holds pair isLcb := by
    rw [same] at isLcb
    rcases snapshot_of_step phase taken holds with ⟨before, sameTs⟩ | ⟨-, -, -, drawn, -⟩
    · rw [sameTs] at isLcb
      exact covers.lcb before pair isLcb
    · rw [drawn] at isLcb
      exact covers.latest pair (isLcb.isLatest (inv.past owner))

theorem of_commit {startTs : Nat} (inv : TreeInv cfg s) (phase : PhaseInv s)
    (taken : step cfg s a = some s') (history : (s'.workers owner).history =
      (s.workers owner).history ++ [(s.globalClock, startTs)]) :
    Covers s' owner reader (pairs ++ [(s.globalClock, startTs)]) where
  latest pair isLatest := by
    rw [history] at isLatest
    rw [isLatest_append (inv.past owner) isLatest]
    simp
  lcb holds pair isLcb := by
    rw [history] at isLcb
    apply mem_append_left
    rcases snapshot_of_step phase taken holds with ⟨before, sameTs⟩ | ⟨-, -, -, drawn, -⟩
    · rw [sameTs] at isLcb
      have started := inv.started reader
      exact covers.lcb before pair (isLcb.of_append (le_of_lt started))
    · rw [drawn] at isLcb
      have old := isLcb.of_append (le_refl _)
      exact covers.latest pair (old.isLatest (inv.past owner))

end

theorem of_keepFor {set : List (Nat × Nat)} (inv : TreeInv cfg s)
    (words : WordInv s) (inside : reader < cfg.workersCount) (ne : reader ≠ owner)
    (unlatched : (s.currentSnapshot reader).latchBit = false) : Covers s owner reader
      ((s.workers owner).commitTree.keepFor (s.currentSnapshot reader).ts set) := by
  have sorted := inv.sortedTree owner
  have covers := inv.covers owner reader ne inside
  refine ⟨?_, ?_⟩
  · intro pair isLatest
    apply CommitTree.isLatest_mem_keepFor sorted
    exact ⟨covers.latest pair isLatest, fun other mem => isLatest.2 other (inv.inside owner mem)⟩
  · intro holds pair isLcb
    apply CommitTree.isLcb_mem_keepFor sorted
    have notDrawn : (s.workers reader).pc ≠ .drawn := by
      intro drawn
      rw [words.latched reader (.inr drawn)] at unlatched
      contradiction
    rw [words.published reader holds notDrawn]
    exact isLcb.subset (inv.inside owner) (covers.lcb holds pair isLcb)

end Covers

namespace TreeInv

variable (inv : TreeInv cfg s)
include inv

section

variable (taken : step cfg s a = some s')
include taken

theorem scan_step (words : WordInv s) (phase : PhaseInv s) {w next : Nat}
    {set : List (Nat × Nat)} (pc : (s'.workers w).pc = .cleaning next set) :
    SortedLog set ∧ set ⊆ (s'.workers w).commitTree.array ∧
      ∀ reader < next, reader ≠ w → Covers s' w reader set := by
  obtain ⟨move, core⟩ := scan_of_step taken pc
  have history : (s'.workers w).history = (s.workers w).history :=
    congrArg (fun its => its.history) core
  have tree : (s'.workers w).commitTree = (s.workers w).commitTree :=
    congrArg (fun its => its.commitTree) core
  rw [tree]
  cases move with
  | begins => exact ⟨Pairwise.nil, nil_subset _, fun reader seen => by omega⟩
  | stays pc =>
    obtain ⟨sorted, inside, covers⟩ := inv.scan w _ _ pc
    refine ⟨sorted, inside, ?_⟩
    intro reader seen ne
    exact (covers reader seen ne).of_step inv phase taken history
  | skips pc =>
    obtain ⟨sorted, inside, covers⟩ := inv.scan w _ _ pc
    refine ⟨sorted, inside, ?_⟩
    intro reader seen ne
    exact (covers reader (by omega) ne).of_step inv phase taken history
  | @scans next set was isWorker unlatched =>
    obtain ⟨sorted, inside, covers⟩ := inv.scan w _ _ was
    have sortedTree := inv.sortedTree w
    refine ⟨CommitTree.sorted_keepFor sortedTree sorted inside,
      CommitTree.keepFor_subset sortedTree inside, ?_⟩
    intro reader seen ne
    apply Covers.of_step _ inv phase taken history
    rcases Nat.lt_succ_iff_lt_or_eq.mp seen with earlier | rfl
    · exact (covers reader earlier ne).mono fun _ => CommitTree.mem_keepFor_of_mem
    · exact Covers.of_keepFor inv words isWorker ne unlatched

theorem started_step (w : Nat) : (s'.workers w).tx.startTs < s'.globalClock := by
  have clock := clock_of_step taken
  rcases startTs_of_step taken w with same | ⟨-, -, drawn, next⟩
  · rw [same]
    exact lt_of_lt_of_le (inv.started w) clock
  · omega

theorem step (words : WordInv s) (phase : PhaseInv s) : TreeInv cfg s' where
  sorted w := by
    cases tree_of_step taken w with
    | same array history => exact history ▸ inv.sorted w
    | commit pc pc' array history =>
      rw [history]
      exact (inv.sorted w).append (inv.past w)
    | rewrite next set pc all array history => exact history ▸ inv.sorted w
  past w pair mem := by
    have clock := clock_of_step taken
    cases tree_of_step taken w with
    | same array history | rewrite next set pc all array history =>
      exact lt_of_lt_of_le (inv.past w pair (history ▸ mem)) clock
    | commit pc pc' array history =>
      rw [history] at mem
      rcases mem_append.mp mem with old | new
      · exact lt_of_lt_of_le (inv.past w pair old) clock
      · rw [mem_singleton.mp new]
        omega
  started := inv.started_step taken
  sortedTree w := by
    cases tree_of_step taken w with
    | same array => exact array ▸ inv.sortedTree w
    | commit pc pc' array =>
      rw [array]
      apply (inv.sortedTree w).append
      intro e mem
      exact inv.past w e (inv.inside w mem)
    | rewrite next set pc all array history => exact array ▸ (inv.scan w next set pc).1
  inside w := by
    cases tree_of_step taken w with
    | same array history => exact array ▸ history ▸ inv.inside w
    | commit pc pc' array history =>
      rw [array, history]
      intro e mem
      rcases mem_append.mp mem with old | new
      · exact mem_append_left _ (inv.inside w old)
      · exact mem_append_right _ new
    | rewrite next set pc all array history =>
      rw [array, history]
      exact Subset.trans (inv.scan w next set pc).2.1 (inv.inside w)
  covers owner reader ne isWorker := by
    have covers := inv.covers owner reader ne isWorker
    cases tree_of_step taken owner with
    | same array history =>
      rw [array]
      exact covers.of_step inv phase taken history
    | commit pc pc' array history =>
      rw [array]
      exact covers.of_commit inv phase taken history
    | rewrite next set pc all array history =>
      rw [array]
      have scanned := (inv.scan owner next set pc).2.2 reader (by omega) ne
      exact scanned.of_step inv phase taken history
  scan w next set pc := inv.scan_step taken words phase pc

end

theorem isLcb_tree_iff {owner reader : Nat}
    (ne : reader ≠ owner) (isWorker : reader < cfg.workersCount)
    (holds : s.HasSnapshot reader) {pair : Nat × Nat} :
    IsLcb (s.workers owner).commitTree.array (s.workers reader).tx.startTs pair ↔
      IsLcb (s.workers owner).history (s.workers reader).tx.startTs pair := by
  have covers := (inv.covers owner reader ne isWorker).lcb holds
  constructor
  · intro isLcb
    obtain ⟨last, isLast⟩ := CommitTree.exists_isLcb (inv.sorted owner)
      (inv.inside owner isLcb.member) isLcb.before
    have inTree := isLast.subset (inv.inside owner) (covers last isLast)
    rw [isLcb.unique (inv.sortedTree owner) inTree]
    exact isLast
  · intro isLcb
    exact isLcb.subset (inv.inside owner) (covers pair isLcb)

end TreeInv

structure CommitInv (cfg : Config) (s : State) : Prop where
  phase : PhaseInv s
  words : WordInv s
  trees : TreeInv cfg s

theorem CommitInv.step (inv : CommitInv cfg s)
    (taken : step cfg s a = some s') : CommitInv cfg s' where
  phase := inv.phase.step taken
  words := inv.words.step inv.phase taken
  trees := inv.trees.step taken inv.words inv.phase

theorem Initial.commitInv (initial : Initial cfg s) : CommitInv cfg s where
  phase w leaves := by
    rw [initial.pc] at leaves
    contradiction
  words := by
    constructor
    · intro w latched
      rw [initial.pc] at latched
      simp at latched
    · intro w holds
      have inside := holds.2
      rw [initial.pc] at inside
      contradiction
  trees := by
    have noSnapshot (w : Nat) : ¬ s.HasSnapshot w := by
      intro holds
      have inside := holds.2
      rw [initial.pc] at inside
      contradiction
    have clock := initial.globalClock
    constructor
    · intro w
      rw [initial.history]
      exact Pairwise.nil
    · intro w pair mem
      rw [initial.history] at mem
      contradiction
    · intro w
      rw [initial.startTs, clock]
      decide
    · intro w
      rw [initial.commitTree]
      exact Pairwise.nil
    · intro w
      rw [initial.commitTree]
      exact nil_subset _
    · intro owner reader ne isWorker
      constructor
      · intro pair isLatest
        rw [initial.history] at isLatest
        cases isLatest.1
      · intro holds
        exact absurd holds (noSnapshot reader)
    · intro w next set pc
      rw [initial.pc] at pc
      contradiction

end TieredStore.ConcurrencyControl
