import TieredStore.VersionedIndex.VersionChain

/-!
`updateSameSizeInPlace` and `remove` on one key, with every exit: what they return, and what
they leave in the leaf, in the history tree and in the log.  An update may convert the tuple
between the chained and the fat format and start over.
-/

namespace TieredStore.VersionedIndex

open ByteMemory

structure FatDelta where
  workerId : WorkerId
  txTs : TxId
  commandId : CommandId
  descriptor : Descriptor
  diff : Bytes
  deriving DecidableEq, Repr

def FatDelta.id (delta : FatDelta) : VersionId := ⟨delta.workerId, delta.txTs, delta.commandId⟩

/-- `sizeof(Delta)`, the descriptor and the diff. -/
def deltaLength (descriptor : Descriptor) : Nat :=
  sizeofDelta + sizeofDescriptor + 4 * descriptor.length + (descriptor.map DiffSlot.length).sum

structure FatRow extends Tuple where
  totalSpace : Nat
  value : Bytes
  deltas : List FatDelta
  deriving DecidableEq, Repr

namespace FatRow

def dataOffset (row : FatRow) : Nat :=
  row.totalSpace - (row.deltas.map fun delta => deltaLength delta.descriptor).sum

def usedSpace (row : FatRow) : Nat :=
  row.value.length + (row.deltas.map fun delta => deltaLength delta.descriptor + 2).sum

def hasSpaceFor (row : FatRow) (descriptor : Descriptor) : Bool :=
  row.value.length + 2 * row.deltas.length + deltaLength descriptor + 2 ≤ row.dataOffset

end FatRow

/-- What `garbageCollection` of a fat tuple finds to do: nothing, drop all deltas, or copy the
tuple with other deltas. -/
inductive Collection
  | nothing
  | dropAll
  | rebuild (deltas : List FatDelta)

/-- A copy is constructed anew, so its lock is released. -/
def Collection.apply (row : FatRow) : Collection → FatRow
  | .nothing => row
  | .dropAll => { row with deltas := [] }
  | .rebuild deltas => { row with deltas := deltas, writeLocked := false }

inductive LeafRow
  | chained (tuple : ChainedTuple)
  | fat (row : FatRow)
  deriving DecidableEq, Repr

def LeafRow.head : LeafRow → Tuple
  | .chained tuple => tuple.toTuple
  | .fat row => row.toTuple

/-- What a call reads besides the tuple.  `random` are the draws of the probabilistic trigger,
by the number of the restart. -/
structure WriteContext where
  tx : Transaction
  atLeastSI : Bool
  isOLAP : Bool
  inGraveyard : Bool
  isVisibleForMe : WorkerId → TxId → Bool
  isVisibleForAll : WorkerId → TxId → Bool
  retrieveVersion : VersionId → Option Version
  commandId : CommandId
  viFatTuple : Bool
  viFatTupleTrigger : Nat
  globalOldestOltpStartTs : Nat
  globalOldestAllStartTs : Nat
  random : Nat → Bool
  viFremove : Bool
  viFupdateChained : Bool
  viFupdateFatTuple : Bool
  tmp6 : Bool
  maxFatTupleLength : Nat
  convertToFatTupleThreshold : Nat
  collect : FatRow → Collection

/-- The leaf's tuple of the key, what was inserted into the history tree, the log, and how
often the update callback ran. -/
structure RowState where
  row : Option LeafRow
  versions : List (VersionId × Version)
  log : List WALEntry
  callbacks : Nat

inductive OpResult
  | ok
  | notFound
  | abortTX
  deriving DecidableEq, Repr

namespace WriteContext

variable (context : WriteContext)

def refuses (head : Tuple) : Bool :=
  head.writeLocked || !context.isVisibleForMe head.workerId head.txTs

def missing : OpResult :=
  if context.isOLAP && context.inGraveyard then .abortTX else .notFound

/-- The part of the update that decides whether to convert a chained tuple, and counts for it;
`none` is the `UNREACHABLE` of an unknown trigger. -/
def countUpdate (restarts : Nat) (tuple : ChainedTuple) : Option (ChainedTuple × Bool) :=
  let own := tuple.workerId == context.tx.workerId && tuple.txTs == context.tx.startTs
  let convert := tuple.commandId != invalidCommandId &&
    context.globalOldestOltpStartTs != context.globalOldestAllStartTs && !own
  if context.viFatTuple = false then
    some (tuple, false)
  else if context.viFatTupleTrigger = 0 then
    if context.isVisibleForAll tuple.workerId tuple.txTs then
      some ({ tuple with oldestTx := 0, updatesCounter := 0 }, false)
    else
      let oldest := UInt16.ofNat context.globalOldestAllStartTs
      let counter := if tuple.oldestTx = oldest then tuple.updatesCounter + 1 else 0
      some ({ tuple with oldestTx := oldest, updatesCounter := counter },
        convert && decide (context.convertToFatTupleThreshold < counter.toNat))
  else if context.viFatTupleTrigger = 1 then
    some (tuple, convert && context.random restarts)
  else
    none

/-- The loop of `convertChainedToFatTupleDifferentAttributes` over the chain; `some none` is an
aborted conversion, and `none` an `ensure` that fails. -/
def gatherDeltas : (fuel : Nat) → VersionId → FatRow → Nat → Option (Option (FatRow × Nat))
  | 0, _, _, _ => none
  | fuel + 1, next, row, count =>
    if context.isVisibleForAll next.workerId next.txId then
      some (some (row, count))
    else
      match context.retrieveVersion next with
      | none => some (some (row, count))
      | some (.delta older descriptor diff) =>
        let row := if row.hasSpaceFor descriptor then row else (context.collect row).apply row
        if row.hasSpaceFor descriptor then
          gatherDeltas fuel older
            { row with
              deltas := ⟨older.workerId, older.txId, older.commandId, descriptor, diff⟩ ::
                row.deltas }
            (count + 1)
        else
          some none
      | some _ => none

/-- `convertChainedToFatTupleDifferentAttributes`: the tuple it leaves in the leaf. -/
def convertChainedToFat (fuel : Nat) (tuple : ChainedTuple) : Option LeafRow :=
  let unlocked : LeafRow := .chained { tuple with writeLocked := false }
  let empty : FatRow :=
    { workerId := tuple.workerId
      txTs := tuple.txTs
      commandId := tuple.commandId
      writeLocked := false
      totalSpace := context.maxFatTupleLength - sizeofFatTuple
      value := tuple.value
      deltas := [] }
  match context.gatherDeltas fuel tuple.id empty 0 with
  | none => none
  | some none => some unlocked
  | some (some (row, count)) =>
    let row := (context.collect row).apply row
    if context.maxFatTupleLength < row.usedSpace then
      some unlocked
    else if context.convertToFatTupleThreshold < count then
      some (.fat row)
    else
      some unlocked

/-- The versions that `convertToChained` puts into the history tree: each delta under the id
of the version that it takes back. -/
def decomposed : VersionId → List FatDelta → List (VersionId × Version)
  | _, [] => []
  | id, delta :: older =>
    (id, .delta delta.id delta.descriptor delta.diff) :: decomposed delta.id older

end WriteContext

inductive Pass
  | returns (result : OpResult) (state : RowState)
  | restarts (state : RowState)

namespace WriteContext

variable (context : WriteContext)

def walOf (key : Key) (descriptor : Descriptor) (head : Tuple) (before after : Bytes) :
    WALEntry :=
  .update (walUpdate key descriptor ⟨head, 0, 0, false, before⟩ after)

def appendDelta (key : Key) (descriptor : Descriptor) (callback : InPlace) (state : RowState)
    (row : FatRow) : Pass :=
  let after := callback.apply row.value
  .returns .ok
    { state with
      row := some (.fat
        { row with
          workerId := context.tx.workerId
          txTs := context.tx.startTs
          commandId := context.commandId
          writeLocked := false
          value := after
          deltas := row.deltas ++ [⟨row.workerId, row.txTs, row.commandId, descriptor,
            generateDiff descriptor row.value⟩] })
      log := state.log ++ [walOf key descriptor row.toTuple row.value after]
      callbacks := state.callbacks + 1 }

/-- `FatTupleDifferentAttributes::update`, and the unlock after it. -/
def updateFat (key : Key) (descriptor : Descriptor) (callback : InPlace) (state : RowState)
    (row : FatRow) : Pass :=
  if context.viFupdateFatTuple then
    .returns .ok
      { state with
        row := some (.fat { row with value := callback.apply row.value, writeLocked := false })
        callbacks := state.callbacks + 1 }
  else if row.hasSpaceFor descriptor then
    context.appendDelta key descriptor callback state row
  else
    let row := (context.collect row).apply row
    if row.hasSpaceFor descriptor then
      context.appendDelta key descriptor callback state row
    else if context.tmp6 then
      .restarts
        { state with row := some (.fat { row with deltas := [], writeLocked := false }) }
    else
      .restarts
        { state with
          row := some (.chained
            ⟨⟨row.workerId, row.txTs, row.commandId, false⟩, 0, 0, false, row.value⟩)
          versions := decomposed ⟨row.workerId, row.txTs, row.commandId⟩ row.deltas.reverse ++
            state.versions }

def updateChained (key : Key) (descriptor : Descriptor) (callback : InPlace)
    (state : RowState) (tuple : ChainedTuple) : Pass :=
  let after := callback.apply tuple.value
  .returns .ok
    { state with
      row := some (.chained (tuple.updated context.tx after context.commandId))
      versions :=
        if context.viFupdateChained then state.versions
        else (⟨context.tx.workerId, context.tx.startTs, context.commandId⟩,
          tuple.updateVersion descriptor) :: state.versions
      log := state.log ++ [walOf key descriptor tuple.toTuple tuple.value after]
      callbacks := state.callbacks + 1 }

def updatePass (key : Key) (descriptor : Descriptor) (callback : InPlace) (fuel restarts : Nat)
    (state : RowState) : Option Pass :=
  match state.row with
  | none => some (.returns context.missing state)
  | some (.fat row) =>
    if context.refuses row.toTuple then
      some (.returns .abortTX state)
    else
      some (context.updateFat key descriptor callback state { row with writeLocked := true })
  | some (.chained tuple) =>
    if context.refuses tuple.toTuple then
      some (.returns .abortTX state)
    else
      match context.countUpdate restarts { tuple with writeLocked := true } with
      | none => none
      | some (tuple, true) =>
        (context.convertChainedToFat fuel { tuple with updatesCounter := 0 }).map
          fun row => .restarts { state with row := some row }
      | some (tuple, false) =>
        some (context.updateChained key descriptor callback state tuple)

def updateSameSizeInPlace (key : Key) (descriptor : Descriptor) (callback : InPlace) :
    (fuel : Nat) → (restarts : Nat) → RowState → Option (OpResult × RowState)
  | 0, _, _ => none
  | fuel + 1, restarts, state =>
    match context.updatePass key descriptor callback fuel restarts state with
    | none => none
    | some (.returns result state) => some (result, state)
    | some (.restarts state) =>
      updateSameSizeInPlace key descriptor callback fuel (restarts + 1) state

def remove (key : Key) (state : RowState) : Option (OpResult × RowState) :=
  match state.row with
  | none =>
    if context.missing = .notFound ∧ context.atLeastSI = true then none  -- `explainWhen`
    else some (context.missing, state)
  | some row =>
    if context.viFremove then
      some (.ok, { state with row := none })
    else
      match row with
      | .fat _ => none
      | .chained tuple =>
        if context.refuses tuple.toTuple then
          some (.abortTX, state)
        else if context.atLeastSI && tuple.isRemoved then
          none
        else if tuple.isRemoved then
          some (.notFound, state)
        else
          some (.ok,
            { state with
              row := some (.chained (tuple.removed context.tx context.commandId))
              versions := (⟨context.tx.workerId, context.tx.startTs, context.commandId⟩,
                tuple.removeVersion key) :: state.versions
              log := state.log ++ [.remove (walRemove key tuple)] })

end WriteContext

structure Reopens (head head' : Tuple) : Prop where
  workerId : head'.workerId = head.workerId
  txTs : head'.txTs = head.txTs
  unlocked : head'.writeLocked = false

section Conversions

variable {context : WriteContext} {fuel restarts : Nat}

theorem Reopens.collected {head : Tuple} {row : FatRow} (reopens : Reopens head row.toTuple)
    (collection : Collection) : Reopens head (collection.apply row).toTuple := by
  cases collection with
  | nothing => exact reopens
  | dropAll => exact ⟨reopens.workerId, reopens.txTs, reopens.unlocked⟩
  | rebuild => exact ⟨reopens.workerId, reopens.txTs, rfl⟩

theorem gatherDeltas_reopens {head : Tuple} {next : VersionId} {row row' : FatRow}
    {count count' : Nat} (reopens : Reopens head row.toTuple)
    (gathered : context.gatherDeltas fuel next row count = some (some (row', count'))) :
    Reopens head row'.toTuple := by
  induction fuel generalizing next row count with
  | zero => contradiction
  | succ fuel ih =>
    simp only [WriteContext.gatherDeltas] at gathered
    split at gathered
    · cases gathered
      exact reopens
    · split at gathered
      · cases gathered
        exact reopens
      · split at gathered
        · apply ih _ gathered
          exact ⟨reopens.workerId, reopens.txTs, reopens.unlocked⟩
        · split at gathered
          · apply ih _ gathered
            have made := reopens.collected (context.collect row)
            exact ⟨made.workerId, made.txTs, made.unlocked⟩
          · cases gathered
      · contradiction

theorem convertChainedToFat_reopens {tuple : ChainedTuple} {row : LeafRow}
    (converted : context.convertChainedToFat fuel tuple = some row) :
    Reopens tuple.toTuple row.head := by
  have unlocked : Reopens tuple.toTuple
      (LeafRow.chained { tuple with writeLocked := false }).head := ⟨rfl, rfl, rfl⟩
  unfold WriteContext.convertChainedToFat at converted
  dsimp only at converted
  split at converted
  · contradiction
  · cases converted
    exact unlocked
  · rename_i gathered
    split at converted
    · cases converted
      exact unlocked
    · split at converted
      · cases converted
        apply Reopens.collected
        exact gatherDeltas_reopens ⟨rfl, rfl, rfl⟩ gathered
      · cases converted
        exact unlocked

theorem countUpdate_tag {tuple tuple' : ChainedTuple} {convert : Bool}
    (counted : context.countUpdate restarts tuple = some (tuple', convert)) :
    tuple'.toTuple = tuple.toTuple := by
  unfold WriteContext.countUpdate at counted
  split at counted
  · cases counted
    rfl
  · split at counted
    · split at counted
      · cases counted
        rfl
      · cases counted
        rfl
    · split at counted
      · cases counted
        rfl
      · contradiction

end Conversions

/-- A pass that does not succeed changed nothing, or starts over with a tuple that the
transaction does not refuse. -/
inductive PassOutcome (context : WriteContext) (s : RowState) : Pass → Prop
  | refused {result} (stopped : ∀ row, s.row = some row → context.refuses row.head = true) :
    PassOutcome context s (.returns result s)
  | succeeds {s'} : PassOutcome context s (.returns .ok s')
  | restarts {s' row} (found : s'.row = some row) (accepted : context.refuses row.head = false) :
    PassOutcome context s (.restarts s')

section Passes

variable {context : WriteContext} {key : Key} {descriptor : Descriptor} {callback : InPlace}
  {fuel restarts : Nat} {s s' : RowState} {result : OpResult}

theorem WriteContext.not_refuses {head head' : Tuple} (accepted : context.refuses head = false)
    (reopens : Reopens head head') : context.refuses head' = false := by
  simp only [refuses, Bool.or_eq_false_iff] at accepted ⊢
  exact ⟨reopens.unlocked, by rw [reopens.workerId, reopens.txTs]; exact accepted.2⟩

theorem updateFat_cases (context : WriteContext) (key : Key) (descriptor : Descriptor)
    (callback : InPlace) (s : RowState) (row : FatRow) :
    (∃ s', context.updateFat key descriptor callback s row = .returns .ok s') ∨
      ∃ s' row', context.updateFat key descriptor callback s row =
        .restarts s' ∧ s'.row = some row' ∧ Reopens row.toTuple row'.head := by
  have collected : (((context.collect row).apply row).workerId = row.workerId) ∧
      ((context.collect row).apply row).txTs = row.txTs := by
    cases context.collect row <;> exact ⟨rfl, rfl⟩
  unfold WriteContext.updateFat
  dsimp only
  split
  · exact .inl ⟨_, rfl⟩
  · split
    · exact .inl ⟨_, rfl⟩
    · split
      · exact .inl ⟨_, rfl⟩
      · split
        · exact .inr ⟨_, _, rfl, rfl, collected.1, collected.2, rfl⟩
        · exact .inr ⟨_, _, rfl, rfl, collected.1, collected.2, rfl⟩

theorem updatePass_outcome {pass : Pass}
    (passed : context.updatePass key descriptor callback fuel restarts s = some pass) :
    PassOutcome context s pass := by
  unfold WriteContext.updatePass at passed
  split at passed
  · rename_i missing
    cases passed
    apply PassOutcome.refused
    intro row found
    rw [missing] at found
    contradiction
  · rename_i row found
    split at passed
    · rename_i refused
      cases passed
      apply PassOutcome.refused
      intro other isOther
      rw [found] at isOther
      cases isOther
      exact refused
    · rename_i accepted
      cases passed
      have accepted : context.refuses row.toTuple = false := by simpa using accepted
      rcases updateFat_cases context key descriptor callback s
          { row with writeLocked := true } with
        ⟨s', ends⟩ | ⟨s', row', ends, isRow, reopens⟩
      · rw [ends]
        exact .succeeds
      · rw [ends]
        exact .restarts isRow (WriteContext.not_refuses accepted
          ⟨reopens.workerId, reopens.txTs, reopens.unlocked⟩)
  · rename_i tuple found
    split at passed
    · rename_i refused
      cases passed
      apply PassOutcome.refused
      intro other isOther
      rw [found] at isOther
      cases isOther
      exact refused
    · rename_i accepted
      have accepted : context.refuses tuple.toTuple = false := by simpa using accepted
      split at passed
      · contradiction
      · rename_i counted
        have tag := countUpdate_tag counted
        obtain ⟨row, converted, rfl⟩ := Option.map_eq_some_iff.mp passed
        have reopens := convertChainedToFat_reopens converted
        refine .restarts rfl (WriteContext.not_refuses accepted ?_)
        simp only [tag] at reopens
        exact ⟨reopens.workerId, reopens.txTs, reopens.unlocked⟩
      · cases passed
        exact .succeeds

section

variable (returned : context.updateSameSizeInPlace key descriptor callback fuel restarts s =
  some (result, s'))
include returned

theorem update_ok_of_accepted {row : LeafRow} (found : s.row = some row)
    (accepted : context.refuses row.head = false) : result = .ok := by
  induction fuel generalizing restarts s row with
  | zero => contradiction
  | succ fuel ih =>
    simp only [WriteContext.updateSameSizeInPlace] at returned
    split at returned
    · contradiction
    · rename_i passed
      cases returned
      cases updatePass_outcome passed with
      | refused stopped =>
        rw [stopped row found] at accepted
        contradiction
      | succeeds => rfl
    · rename_i passed
      cases updatePass_outcome passed with
      | restarts again accepted' => exact ih returned again accepted'

theorem update_refused_unchanged (refused : result ≠ .ok) : s' = s := by
  cases fuel with
  | zero => contradiction
  | succ fuel =>
    simp only [WriteContext.updateSameSizeInPlace] at returned
    split at returned
    · contradiction
    · rename_i passed
      cases returned
      cases updatePass_outcome passed with
      | refused => rfl
      | succeeds => contradiction
    · rename_i passed
      cases updatePass_outcome passed with
      | restarts again accepted =>
        exact absurd (update_ok_of_accepted returned again accepted) refused

end

theorem remove_refused_unchanged (returned : context.remove key s = some (result, s'))
    (refused : result ≠ .ok) : s' = s := by
  unfold WriteContext.remove at returned
  split at returned
  · split at returned
    · contradiction
    · cases returned
      rfl
  · split at returned
    · cases returned
      contradiction
    · split at returned
      · contradiction
      · split at returned
        · cases returned
          rfl
        · split at returned
          · contradiction
          · split at returned
            · cases returned
              rfl
            · cases returned
              contradiction

end Passes

section Removed

variable {context : WriteContext} {key : Key} {s : RowState} {tuple : ChainedTuple}
  (found : s.row = some (.chained tuple))
include found

theorem remove_removed_iff (removed : tuple.isRemoved = true)
    (visible : context.isVisibleForMe tuple.workerId tuple.txTs = true) :
    context.remove key s = some (.notFound, s) ↔ context.atLeastSI = false ∧
      context.viFremove = false ∧ tuple.writeLocked = false := by
  simp only [WriteContext.remove, found, WriteContext.refuses, removed, visible, Bool.and_true,
    Bool.not_true, Bool.or_false, if_true]
  cases context.atLeastSI <;> cases context.viFremove <;> cases tuple.writeLocked <;> simp

theorem update_ne_notFound {descriptor : Descriptor} {callback : InPlace} {fuel restarts : Nat}
    {result : OpResult} {s' : RowState} (returned : context.updateSameSizeInPlace key descriptor
      callback fuel restarts s = some (result, s')) : result ≠ .notFound := by
  cases refused : context.refuses tuple.toTuple with
  | false =>
    rw [update_ok_of_accepted returned found refused]
    decide
  | true =>
    cases fuel with
    | zero => contradiction
    | succ fuel =>
      simp only [WriteContext.updateSameSizeInPlace, WriteContext.updatePass, found, refused,
        if_true, Option.some.injEq, Prod.mk.injEq] at returned
      rw [← returned.1]
      decide

end Removed

def writerContext (atLeastSI : Bool) : WriteContext where
  tx := ⟨3, 30⟩
  atLeastSI := atLeastSI
  isOLAP := false
  inGraveyard := false
  isVisibleForMe _ _ := true
  isVisibleForAll _ _ := false
  retrieveVersion := removedRowVersions
  commandId := 0
  viFatTuple := false
  viFatTupleTrigger := 0
  globalOldestOltpStartTs := 0
  globalOldestAllStartTs := 0
  random _ := false
  viFremove := false
  viFupdateChained := false
  viFupdateFatTuple := false
  tmp6 := false
  maxFatTupleLength := 2 ^ 10
  convertToFatTupleThreshold := 10
  collect _ := .nothing

def tombstoneState : RowState where
  row := some (.chained removedRow.tuple)
  versions := []
  log := []
  callbacks := 0

end TieredStore.VersionedIndex
