import TieredStore.BufferManager.IoTable

/-!
Where the frames are. A frame is in one free list, in one batch, with one operation, behind one
swip or in one entry of `io_ht`, and its header says so.
-/

namespace TieredStore.BufferManager

open Function (update update_self update_of_ne)
open Ownership List State

variable {Data : Type} {cfg : Config Data} {s s' state : State Data} {rest : List FrameId}

inductive Place
  | free (list : FreeListId)
  | batch (batch : BatchId)
  | op (thread : ThreadId)
  | swip (pid : Pid)
  | ready (pid : Pid)
  deriving DecidableEq

inductive Status
  | free
  | page (pid : Pid) (state : FrameState)
  deriving DecidableEq

def Status.Fits : Status → BufferFrame Data → Prop
  | .free, frame => frame.state = .free
  | .page pid s, frame => frame.state = s ∧ frame.pid = pid

structure Holding where
  frames : List FrameId
  status : Status

def Op.holding : Op → Holding
  | .loading .reading _ _ bf => ⟨[bf], .free⟩
  | .loading _ pid _ bf => ⟨[bf], .page pid .loaded⟩
  | .demoting _ _ _ target => ⟨[target], .free⟩
  | .allocating bf => ⟨[bf], .free⟩
  | .allocated bf pid => ⟨[bf], .page pid .hot⟩
  | .unlinked bf pid => ⟨[bf], .page pid .hot⟩
  | .reclaiming bf pid => ⟨[bf], .page pid .hot⟩
  | _ => ⟨[], .free⟩

def Swip.holding (pid : Pid) : Option Swip → Holding
  | some (.hot bf) => ⟨[bf], .page pid .hot⟩
  | some (.cool bf) => ⟨[bf], .page pid .cool⟩
  | _ => ⟨[], .free⟩

namespace State

def ready (state : State Data) (pid : Pid) : Option FrameId :=
  (state.ioTable pid).bind fun entry => (state.entries entry).bf

def holding (state : State Data) : Place → Holding
  | .free list => ⟨state.free list, .free⟩
  | .batch batch => ⟨state.batches batch, .free⟩
  | .op thread => (state.threads thread).holding
  | .swip pid => Swip.holding pid (state.swips pid)
  | .ready pid => ⟨(state.ready pid).toList, .page pid .loaded⟩

def held (state : State Data) (place : Place) : List FrameId := (state.holding place).frames

def Fitting (s : State Data) (place : Place) : Prop :=
  ∀ bf ∈ s.held place, (s.holding place).status.Fits (s.frames bf)

structure Placed (s : State Data) : Prop where
  linear : Linear s.held
  fits : ∀ place, s.Fitting place

end State

namespace State.Placed

variable {bf : FrameId} {pid : Pid} (placed : s.Placed)
include placed

theorem op {t : ThreadId} {operation : Op}
    (isOp : s.threads t = operation) (has : bf ∈ operation.holding.frames) :
    operation.holding.status.Fits (s.frames bf) := by
  subst isOp
  exact placed.fits (.op t) bf has

theorem hot (isHot : s.swips pid = some (.hot bf)) :
    (s.frames bf).state = .hot ∧ (s.frames bf).pid = pid := by
  have fits := placed.fits (.swip pid)
  simp only [Fitting, held, holding, isHot] at fits
  exact fits bf (mem_singleton_self bf)

theorem cool (isCool : s.swips pid = some (.cool bf)) :
    (s.frames bf).state = .cool ∧ (s.frames bf).pid = pid := by
  have fits := placed.fits (.swip pid)
  simp only [Fitting, held, holding, isCool] at fits
  exact fits bf (mem_singleton_self bf)

theorem loaded (isReady : s.ready pid = some bf) :
    (s.frames bf).state = .loaded ∧ (s.frames bf).pid = pid := by
  have fits := placed.fits (.ready pid)
  simp only [Fitting, held, holding, isReady] at fits
  exact fits bf (mem_singleton_self bf)

theorem free {list : FreeListId}
    (isFree : s.free list = bf :: rest) : (s.frames bf).state = .free := by
  have fits := placed.fits (.free list)
  simp only [Fitting, held, holding, isFree] at fits
  exact fits bf mem_cons_self

theorem ne {place place' : Place} {bf' : FrameId}
    (has : bf ∈ s.held place) (has' : bf' ∈ s.held place') (ne : place ≠ place') : bf ≠ bf' := by
  intro same
  subst same
  exact ne (placed.linear.unique place place' bf has has')

end State.Placed

theorem Status.Fits.congr {status : Status} {frame frame' : BufferFrame Data}
    (fits : status.Fits frame) (sameState : frame'.state = frame.state)
    (samePid : frame'.pid = frame.pid) : status.Fits frame' := by
  cases status with
  | free => exact sameState.trans fits
  | page => exact ⟨sameState.trans fits.1, samePid.trans fits.2⟩

/-- How a step moves frames: among the places `involved`, whose frames may also get new
headers, with `lost` left nowhere. -/
structure Moves (s s' : State Data) (involved : List Place) (lost : List FrameId) : Prop where
  distinct : involved.Nodup
  conserved : (involved.flatMap s.held).Perm (lost ++ involved.flatMap s'.held)
  others : ∀ place, place ∉ involved → s'.holding place = s.holding place
  headers : ∀ bf, (∀ place ∈ involved, bf ∉ s.held place) →
    (s'.frames bf).state = (s.frames bf).state ∧ (s'.frames bf).pid = (s.frames bf).pid
  fits : ∀ place ∈ involved, s'.Fitting place

namespace Moves

variable {involved : List Place} {lost : List FrameId}

theorem passes (moves : Moves s s' involved lost) : Passes involved s.held s'.held lost :=
  ⟨moves.distinct, moves.conserved, fun place other =>
    congrArg Holding.frames (moves.others place other)⟩

theorem placed (moves : Moves s s' involved lost) (placed : s.Placed) : s'.Placed := by
  refine ⟨moves.passes.linear placed.linear, fun place bf has => ?_⟩
  by_cases isInvolved : place ∈ involved
  · exact moves.fits place isInvolved bf has
  · have same := moves.others place isInvolved
    have had : bf ∈ s.held place := by
      rw [held, same] at has
      exact has
    have elsewhere : ∀ other ∈ involved, bf ∉ s.held other := by
      intro other otherInvolved hadToo
      exact isInvolved (placed.linear.unique place other bf had hadToo ▸ otherInvolved)
    obtain ⟨sameState, samePid⟩ := moves.headers bf elsewhere
    rw [same]
    exact (placed.fits place bf had).congr sameState samePid

end Moves

section Others

variable {involved : List Place}

theorem update_outside {α β : Type} [DecidableEq α] {f : α → β} {a : α} {b : β}
    {place : α → Place} (isInvolved : place a ∈ involved) (x : α)
    (outside : place x ∉ involved) : update f a b x = f x :=
  update_of_ne (fun same : x = a => outside (same ▸ isInvolved)) _ _

theorem State.holding_others
    (free : ∀ list, Place.free list ∉ involved → s'.free list = s.free list)
    (batches : ∀ batch, Place.batch batch ∉ involved → s'.batches batch = s.batches batch)
    (threads : ∀ t, Place.op t ∉ involved → (s'.threads t).holding = (s.threads t).holding)
    (swips : ∀ pid, Place.swip pid ∉ involved → s'.swips pid = s.swips pid)
    (ready : ∀ pid, Place.ready pid ∉ involved → s'.ready pid = s.ready pid)
    (place : Place) (outside : place ∉ involved) : s'.holding place = s.holding place := by
  cases place with
  | free list => simp only [holding, free list outside]
  | batch batch => simp only [holding, batches batch outside]
  | op t => exact threads t outside
  | swip pid => simp only [holding, swips pid outside]
  | ready pid => simp only [holding, ready pid outside]

theorem State.headers_update {bf : FrameId} {frame : BufferFrame Data} {place : Place}
    (isInvolved : place ∈ involved) (has : bf ∈ s.held place)
    (frames : s'.frames = update s.frames bf frame) (other : FrameId)
    (elsewhere : ∀ place ∈ involved, other ∉ s.held place) :
    (s'.frames other).state = (s.frames other).state ∧
      (s'.frames other).pid = (s.frames other).pid := by
  have ne : other ≠ bf := fun same => elsewhere place isInvolved (same ▸ has)
  rw [frames, update_of_ne ne]
  exact ⟨rfl, rfl⟩

theorem Moves.stay (others : ∀ place, s'.holding place = s.holding place)
    (headers : ∀ bf, (s'.frames bf).state = (s.frames bf).state ∧
      (s'.frames bf).pid = (s.frames bf).pid) : Moves s s' [] [] where
  distinct := nodup_nil
  conserved := .refl _
  others place _ := others place
  headers bf _ := headers bf
  fits _ isInvolved := absurd isInvolved not_mem_nil

theorem State.Fitting.single {place : Place} {bf : FrameId} {status : Status}
    (holding : s.holding place = ⟨[bf], status⟩) (fits : status.Fits (s.frames bf)) :
    s.Fitting place := by
  intro _ has
  rw [held, holding] at has
  rw [holding, mem_singleton.mp has]
  exact fits

theorem State.Fitting.empty {place : Place} {status : Status}
    (holding : s.holding place = ⟨[], status⟩) : s.Fitting place := by
  intro _ has
  rw [held, holding] at has
  cases has

variable {bfs : List FrameId}

theorem State.Fitting.list {place : Place} {bfs' : List FrameId} (fitting : s.Fitting place)
    (before : s.holding place = ⟨bfs, .free⟩) (after : s'.holding place = ⟨bfs', .free⟩)
    (kept : ∀ bf ∈ bfs', (s'.frames bf).state = .free ∨
      (bf ∈ bfs ∧ s'.frames bf = s.frames bf)) : s'.Fitting place := by
  intro bf has
  rw [held, after] at has
  rw [after]
  rcases kept bf has with isFree | ⟨had, same⟩
  · exact isFree
  · have fits := fitting bf (by rw [held, before]; exact had)
    rw [before, ← same] at fits
    exact fits

variable {place source target : Place} {bf : FrameId} {status status' empty : Status}
  {frame : BufferFrame Data}

theorem Moves.rehead (before : s.holding place = ⟨[bf], status⟩)
    (after : s'.holding place = ⟨[bf], status'⟩)
    (frames : s'.frames = update s.frames bf frame) (fits : status'.Fits frame)
    (others : ∀ other, other ∉ [place] → s'.holding other = s.holding other) :
    Moves s s' [place] [] where
  distinct := nodup_singleton place
  conserved := by simp [held, before, after]
  others := others
  headers := headers_update (mem_singleton_self place)
    (by simp [held, before]) frames
  fits := forall_mem_singleton.mpr (.single after (by rwa [frames, update_self]))

theorem Moves.carry (ne : source ≠ target) (before : s.holding source = ⟨[bf], status⟩)
    (absent : (s.holding target).frames = []) (gone : s'.holding source = ⟨[], empty⟩)
    (after : s'.holding target = ⟨[bf], status'⟩)
    (frames : s'.frames = update s.frames bf frame) (fits : status'.Fits frame)
    (others : ∀ other, other ∉ [source, target] → s'.holding other = s.holding other) :
    Moves s s' [source, target] [] where
  distinct := by simp [ne]
  conserved := by simp [held, before, after, absent, gone]
  others := others
  headers := headers_update mem_cons_self (by simp [held, before]) frames
  fits := forall_mem_cons.mpr ⟨.empty gone,
    forall_mem_singleton.mpr (.single after (by rwa [frames, update_self]))⟩

section

variable (placed : s.Placed)
include placed

theorem Moves.pop (ne : source ≠ target) (before : s.holding source = ⟨bf :: rest, .free⟩)
    (absent : (s.holding target).frames = []) (left : s'.holding source = ⟨rest, .free⟩)
    (after : s'.holding target = ⟨[bf], .free⟩) (frames : s'.frames = s.frames)
    (others : ∀ other, other ∉ [source, target] → s'.holding other = s.holding other) :
    Moves s s' [source, target] [] where
  distinct := by simp [ne]
  conserved := by
    simp only [held, flatMap_cons, before, after, absent, left]
    simpa using (perm_append_comm : ([bf] ++ rest).Perm (rest ++ [bf]))
  others := others
  headers other _ := by simp only [frames, and_self]
  fits := by
    have fitting := placed.fits source
    refine forall_mem_cons.mpr ⟨fitting.list before left fun other has => ?_,
      forall_mem_singleton.mpr (.single after ?_)⟩
    · exact .inr ⟨mem_cons_of_mem _ has, by rw [frames]⟩
    · have fits := fitting bf (by simp [held, before])
      rw [before] at fits
      rw [frames]
      exact fits

theorem Moves.push (ne : source ≠ target)
    (before : s.holding source = ⟨[bf], status⟩) (list : s.holding target = ⟨bfs, .free⟩)
    (gone : s'.holding source = ⟨[], empty⟩) (after : s'.holding target = ⟨bf :: bfs, .free⟩)
    (frames : s'.frames = update s.frames bf frame) (isFree : frame.state = .free)
    (others : ∀ other, other ∉ [source, target] →
      s'.holding other = s.holding other) : Moves s s' [source, target] [] where
  distinct := by simp [ne]
  conserved := by simp [held, before, after, list, gone]
  others := others
  headers := headers_update mem_cons_self (by simp [held, before]) frames
  fits := by
    have has : bf ∈ s.held source := by simp [held, before]
    refine forall_mem_cons.mpr ⟨.empty gone, forall_mem_singleton.mpr
      ((placed.fits target).list list after fun other isIn => ?_)⟩
    rw [frames]
    rcases mem_cons.mp isIn with rfl | had
    · rw [update_self]
      exact .inl isFree
    · have elsewhere : other ≠ bf := placed.ne (by rw [held, list]; exact had) has ne.symm
      rw [update_of_ne elsewhere]
      exact .inr ⟨had, rfl⟩

theorem Moves.replace {origin seat sink : Place} {new : FrameId}
    {newFrame : BufferFrame Data} (distinct : [origin, seat, sink].Nodup)
    (source : s.holding origin = ⟨new :: rest, .free⟩)
    (before : s.holding seat = ⟨[bf], status⟩) (list : s.holding sink = ⟨bfs, .free⟩)
    (left : s'.holding origin = ⟨rest, .free⟩) (after : s'.holding seat = ⟨[new], status'⟩)
    (arrived : s'.holding sink = ⟨bf :: bfs, .free⟩)
    (frames : s'.frames = update (update s.frames new newFrame) bf frame)
    (fits : status'.Fits newFrame) (isFree : frame.state = .free)
    (others : ∀ other, other ∉ [origin, seat, sink] →
      s'.holding other = s.holding other) : Moves s s' [origin, seat, sink] [] := by
  have newIn : new ∈ s.held origin := by simp [held, source]
  have bfIn : bf ∈ s.held seat := by simp [held, before]
  have apart : origin ≠ seat ∧ origin ≠ sink ∧ seat ≠ sink := by simpa [and_assoc] using distinct
  have ne : new ≠ bf := placed.ne newIn bfIn apart.1
  have restApart : ∀ other ∈ rest, other ≠ new ∧ other ≠ bf := by
    intro other isIn
    have had : other ∈ s.held origin := by simp [held, source, isIn]
    refine ⟨fun same => ?_, placed.ne had bfIn apart.1⟩
    have nodup := placed.linear.nodup origin
    rw [held, source] at nodup
    exact (nodup_cons.mp nodup).1 (same ▸ isIn)
  have listApart : ∀ other ∈ bfs, other ≠ new ∧ other ≠ bf := by
    intro other isIn
    have had : other ∈ s.held sink := by simp [held, list, isIn]
    exact ⟨placed.ne had newIn apart.2.1.symm, placed.ne had bfIn apart.2.2.symm⟩
  refine ⟨distinct, ?_, others, fun other elsewhere => ?_, ?_⟩
  · simp only [held, flatMap_cons, source, before, list, left, after, arrived]
    simpa using (perm_middle.symm : (new :: (rest ++ bf :: bfs)).Perm _)
  · have notNew : other ≠ new := fun same => elsewhere origin mem_cons_self (same ▸ newIn)
    have notBf : other ≠ bf := fun same =>
      elsewhere seat (mem_cons_of_mem _ mem_cons_self) (same ▸ bfIn)
    rw [frames, update_of_ne notBf, update_of_ne notNew]
    exact ⟨rfl, rfl⟩
  · refine forall_mem_cons.mpr ⟨?_, forall_mem_cons.mpr ⟨?_, forall_mem_singleton.mpr ?_⟩⟩
    · refine (placed.fits origin).list source left fun other isIn => .inr ?_
      obtain ⟨notNew, notBf⟩ := restApart other isIn
      rw [frames, update_of_ne notBf, update_of_ne notNew]
      exact ⟨mem_cons_of_mem _ isIn, rfl⟩
    · refine .single after ?_
      rw [frames, update_of_ne ne, update_self]
      exact fits
    · refine (placed.fits sink).list list arrived fun other isIn => ?_
      rcases mem_cons.mp isIn with rfl | had
      · rw [frames, update_self]
        exact .inl isFree
      · obtain ⟨notNew, notBf⟩ := listApart other had
        rw [frames, update_of_ne notBf, update_of_ne notNew]
        exact .inr ⟨had, rfl⟩

theorem Moves.pushAll {list : List FrameId} (ne : source ≠ target)
    (before : s.holding source = ⟨bfs, .free⟩) (existing : s.holding target = ⟨list, .free⟩)
    (gone : s'.holding source = ⟨[], empty⟩)
    (after : s'.holding target = ⟨bfs ++ list, .free⟩) (frames : s'.frames = s.frames)
    (others : ∀ other, other ∉ [source, target] →
      s'.holding other = s.holding other) : Moves s s' [source, target] [] where
  distinct := by simp [ne]
  conserved := by simp [held, before, existing, gone, after]
  others := others
  headers other _ := by simp only [frames, and_self]
  fits := by
    refine forall_mem_cons.mpr ⟨.empty gone, forall_mem_singleton.mpr
      ((placed.fits target).list existing after fun other isIn => ?_)⟩
    rcases mem_append.mp isIn with isMoved | had
    · have fits := placed.fits source other (by rw [held, before]; exact isMoved)
      rw [before] at fits
      rw [frames]
      exact .inl fits
    · rw [frames]
      exact .inr ⟨had, rfl⟩

end

theorem Moves.lose (before : s.holding place = ⟨[bf], status⟩)
    (gone : s'.holding place = ⟨[], empty⟩) (frames : s'.frames = update s.frames bf frame)
    (others : ∀ other, other ∉ [place] → s'.holding other = s.holding other) :
    Moves s s' [place] [bf] where
  distinct := nodup_singleton place
  conserved := by simp [held, before, gone]
  others := others
  headers := headers_update (mem_singleton_self place)
    (by simp [held, before]) frames
  fits := forall_mem_singleton.mpr (.empty gone)

end Others

namespace State

variable {t : ThreadId} {operation : Op} {pid : Pid} {e : EntryId} {bf : FrameId}
  {list : FreeListId} {batch : BatchId} {bfs : List FrameId} {ioFrame : IOFrame}

theorem holding_op (isOp : s.threads t = operation) {holds : Holding}
    (isHolding : operation.holding = holds) : s.holding (.op t) = holds := by
  rw [holding, isOp, isHolding]

theorem holding_hot (isHot : s.swips pid = some (.hot bf)) :
    s.holding (.swip pid) = ⟨[bf], .page pid .hot⟩ := by
  rw [holding, isHot, Swip.holding]

theorem holding_cool (isCool : s.swips pid = some (.cool bf)) :
    s.holding (.swip pid) = ⟨[bf], .page pid .cool⟩ := by
  rw [holding, isCool, Swip.holding]

theorem holding_evicted (isEvicted : s.swips pid = some .evicted) :
    s.holding (.swip pid) = ⟨[], .free⟩ := by
  rw [holding, isEvicted, Swip.holding]
  all_goals simp

theorem holding_unlinked (unlinked : s.swips pid = none) : s.holding (.swip pid) = ⟨[], .free⟩ := by
  rw [holding, unlinked, Swip.holding]
  all_goals simp

theorem holding_free (isFree : s.free list = bfs) : s.holding (.free list) = ⟨bfs, .free⟩ := by
  rw [holding, isFree]

theorem holding_batch (isBatch : s.batches batch = bfs) :
    s.holding (.batch batch) = ⟨bfs, .free⟩ := by
  rw [holding, isBatch]

theorem holding_ready (isReady : s.ready pid = some bf) :
    s.holding (.ready pid) = ⟨[bf], .page pid .loaded⟩ := by
  rw [holding, isReady, Option.toList_some]

theorem holding_notReady (notReady : s.ready pid = none) :
    s.holding (.ready pid) = ⟨[], .page pid .loaded⟩ := by
  rw [holding, notReady, Option.toList_none]

theorem ready_entry {held : Option FrameId} (present : s.ioTable pid = some e)
    (isEntry : s.entries e = ioFrame) (isHeld : ioFrame.bf = held) : s.ready pid = held := by
  rw [ready, present, Option.bind_some, isEntry, isHeld]

theorem ready_of_present (present : s.ioTable pid = some e) : s.ready pid = (s.entries e).bf :=
  ready_entry present rfl rfl

theorem ready_of_absent (absent : s.ioTable pid = none) : s.ready pid = none := by
  rw [ready, absent, Option.bind_none]

theorem ready_setEntry (ioTable : s'.ioTable = s.ioTable)
    (entries : s'.entries = update s.entries e ioFrame)
    (sameFrame : ioFrame.bf = (s.entries e).bf) (pid : Pid) : s'.ready pid = s.ready pid := by
  rw [ready, ready, ioTable, entries]
  congr 1
  funext e'
  exact update_view IOFrame.bf sameFrame e'

theorem ready_other (io : s.IoInv) (present : s.ioTable pid = some e)
    (ioTable : ∀ pid', pid' ≠ pid → s'.ioTable pid' = s.ioTable pid')
    (entries : ∀ e', e' ≠ e → s'.entries e' = s.entries e')
    (pid' : Pid) (ne : pid' ≠ pid) : s'.ready pid' = s.ready pid' := by
  rw [ready, ready, ioTable pid' ne]
  cases present' : s.ioTable pid' with
  | none => rfl
  | some e' =>
    have otherEntry : e' ≠ e := fun same => ne (io.distinct pid' pid e (same ▸ present') present)
    simp only [Option.bind_some, entries e' otherEntry]

end State

end TieredStore.BufferManager
