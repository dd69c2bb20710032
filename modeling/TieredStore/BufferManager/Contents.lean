import TieredStore.BufferManager.Residents

namespace TieredStore.BufferManager

open Function (update update_self update_of_ne)
open Ownership List BufferFrame State

variable {Data : Type} {cfg : Config Data} {s s' : State Data}
  {a : Action Data}

inductive Sound (frame : BufferFrame Data) (block : Page Data) (latest : Data) (issue : Nat) :
    Option (Write Data) → Prop
  | free (isFree : frame.state = .free) : Sound frame block latest issue none
  | loaded (isLoaded : frame.state = .loaded) (isBlock : frame.page = block)
    (clean : frame.lastWrittenPlsn = frame.page.plsn) (isLatest : frame.page.data = latest) :
    Sound frame block latest issue none
  | quiet (inUse : frame.state = .hot ∨ frame.state = .cool)
    (isLatest : frame.page.data = latest) (le : frame.lastWrittenPlsn ≤ frame.page.plsn)
    (isBlock : frame.lastWrittenPlsn = frame.page.plsn → frame.page = block) :
    Sound frame block latest issue none
  | writing {write} (inUse : frame.state = .hot ∨ frame.state = .cool)
    (isLatest : frame.page.data = latest) (samePid : write.pid = frame.pid)
    (newer : frame.lastWrittenPlsn < write.page.plsn) (le : write.page.plsn ≤ frame.page.plsn)
    (isCopy : write.page.plsn = frame.page.plsn → write.page = frame.page)
    (isBlock : write.finished = true → write.page = block) (isIssue : write.issue = issue) :
    Sound frame block latest issue (some write)

namespace Sound

variable {frame frame' : BufferFrame Data} {block : Page Data} {latest : Data} {issue : Nat}
  {write : Option (Write Data)}

theorem isLatest (sound : Sound frame block latest issue write)
    (hasPage : frame.state ≠ .free) : frame.page.data = latest := by
  cases sound with
  | free isFree => exact absurd isFree hasPage
  | loaded _ _ _ isLatest => exact isLatest
  | quiet _ isLatest => exact isLatest
  | writing _ isLatest => exact isLatest

theorem of_write {written : Write Data} (sound : Sound frame block latest issue (some written)) :
    (frame.state = .hot ∨ frame.state = .cool) ∧ written.pid = frame.pid ∧
      written.issue = issue := by
  cases sound with
  | writing inUse _ samePid _ _ _ _ isIssue => exact ⟨inUse, samePid, isIssue⟩

theorem none_of_free (sound : Sound frame block latest issue write)
    (isFree : frame.state = .free) : write = none := by
  cases sound with
  | writing inUse => simp [isFree] at inUse
  | _ => rfl

theorem of_loaded (sound : Sound frame block latest issue write)
    (isLoaded : frame.state = .loaded) :
    write = none ∧ frame.page = block ∧ frame.lastWrittenPlsn = frame.page.plsn ∧
      frame.page.data = latest := by
  cases sound with
  | free isFree => simp [isLoaded] at isFree
  | loaded _ isBlock clean isLatest => exact ⟨rfl, isBlock, clean, isLatest⟩
  | quiet inUse => simp [isLoaded] at inUse
  | writing inUse => simp [isLoaded] at inUse

theorem of_quiet (sound : Sound frame block latest issue none)
    (inUse : frame.state = .hot ∨ frame.state = .cool) :
    frame.page.data = latest ∧ frame.lastWrittenPlsn ≤ frame.page.plsn ∧
      (frame.lastWrittenPlsn = frame.page.plsn → frame.page = block) := by
  cases sound with
  | free isFree => simp [isFree] at inUse
  | loaded isLoaded => simp [isLoaded] at inUse
  | quiet _ isLatest le isBlock => exact ⟨isLatest, le, isBlock⟩

section

variable (sound : Sound frame block latest issue write)
include sound

theorem rehead (inUse : frame.state = .hot ∨ frame.state = .cool)
    (inUse' : frame'.state = .hot ∨ frame'.state = .cool)
    (same : frame'.page = frame.page ∧ frame'.pid = frame.pid ∧
      frame'.lastWrittenPlsn = frame.lastWrittenPlsn) : Sound frame' block latest issue write := by
  obtain ⟨samePage, samePid, sameWritten⟩ := same
  cases sound with
  | free isFree => simp [isFree] at inUse
  | loaded isLoaded => simp [isLoaded] at inUse
  | quiet _ isLatest =>
    refine .quiet inUse' ?_ ?_ ?_
    · rw [samePage, isLatest]
    · rwa [samePage, sameWritten]
    · rwa [samePage, sameWritten]
  | writing _ isLatest ofPid _ le _ isBlock isIssue =>
    refine .writing inUse' ?_ ?_ ?_ ?_ ?_ isBlock isIssue
    · rw [samePage, isLatest]
    · rw [samePid, ofPid]
    · rwa [sameWritten]
    · rwa [samePage]
    · rwa [samePage]

theorem swizzle (isLoaded : frame.state = .loaded) (isHot : frame'.state = .hot)
    (same : frame'.page = frame.page ∧ frame'.lastWrittenPlsn = frame.lastWrittenPlsn) :
    Sound frame' block latest issue write := by
  obtain ⟨noWrite, isBlock, clean, isLatest⟩ := sound.of_loaded isLoaded
  obtain ⟨samePage, sameWritten⟩ := same
  subst noWrite
  refine .quiet (.inl isHot) ?_ ?_ fun _ => ?_
  · rw [samePage, isLatest]
  · exact le_of_eq (by rw [samePage, sameWritten, clean])
  · rw [samePage, isBlock]

theorem modify (inUse : frame.state = .hot ∨ frame.state = .cool)
    (later : frame.page.plsn < frame'.page.plsn)
    (same : frame'.state = frame.state ∧ frame'.pid = frame.pid ∧
      frame'.lastWrittenPlsn = frame.lastWrittenPlsn) :
    Sound frame' block frame'.page.data issue write := by
  obtain ⟨sameState, samePid, _⟩ := same
  rw [← sameState] at inUse
  cases sound with
  | free isFree => simp [sameState, isFree] at inUse
  | loaded isLoaded => simp [sameState, isLoaded] at inUse
  | quiet => exact .quiet inUse rfl (by omega) (by omega)
  | writing _ _ ofPid _ le _ isBlock isIssue =>
    exact .writing inUse rfl (ofPid.trans samePid.symm) (by omega) (by omega) (by omega)
      isBlock isIssue

end

variable {written : Write Data} (sound : Sound frame block latest issue (some written))
include sound

theorem finish :
    Sound frame written.page latest issue (some { written with finished := true }) := by
  cases sound with
  | writing inUse isLatest samePid newer le isCopy _ isIssue =>
    exact .writing inUse isLatest samePid newer le isCopy (fun _ => rfl) isIssue

theorem writtenBack (finished : written.finished = true)
    (same : frame'.state = frame.state ∧ frame'.page = frame.page)
    (isWritten : frame'.lastWrittenPlsn = written.page.plsn) :
    Sound frame' block latest issue none := by
  obtain ⟨sameState, samePage⟩ := same
  cases sound with
  | writing inUse isLatest _ _ le isCopy isBlock =>
    refine .quiet (sameState ▸ inUse) (samePage ▸ isLatest) ?_ ?_
    · rwa [isWritten, samePage]
    · rw [isWritten, samePage]
      intro unchanged
      rw [← isCopy unchanged]
      exact isBlock finished

theorem writtenBackLost (same : frame'.state = frame.state ∧ frame'.page = frame.page ∧
      frame'.lastWrittenPlsn = frame.lastWrittenPlsn) : Sound frame' block latest issue none := by
  obtain ⟨sameState, samePage, sameWritten⟩ := same
  cases sound with
  | writing inUse isLatest =>
    refine .quiet (sameState ▸ inUse) (samePage ▸ isLatest) ?_ ?_
    · rw [samePage, sameWritten]
      omega
    · rw [samePage, sameWritten]
      omega

end Sound

def State.Sound (s : State Data) (bf : FrameId) : Prop :=
  BufferManager.Sound (s.frames bf) (s.ssd (s.frames bf).pid)
    (s.latest (s.frames bf).pid) (s.issued (s.frames bf).pid) (s.writes bf)

structure State.Contents (s : State Data) : Prop where
  frames : ∀ bf, s.Sound bf
  evicted : ∀ pid, s.swips pid = some .evicted → (s.ssd pid).data = s.latest pid

variable {bf : FrameId} {frame : BufferFrame Data} {write : Option (Write Data)} {pid : Pid}

theorem State.sound_of (isFrame : s.frames bf = frame) (isWrite : s.writes bf = write)
    (sound : BufferManager.Sound frame (s.ssd frame.pid) (s.latest frame.pid)
      (s.issued frame.pid) write) : s.Sound bf := by
  subst isFrame isWrite
  exact sound

section

variable (contents : s.Contents)
include contents

theorem State.Contents.step (touched : List FrameId)
    (frames : ∀ bf, bf ∉ touched → s'.frames bf = s.frames bf)
    (writes : ∀ bf, bf ∉ touched → s'.writes bf = s.writes bf)
    (pages : ∀ bf, bf ∉ touched → (s.frames bf).state ≠ .free →
      s'.ssd (s.frames bf).pid = s.ssd (s.frames bf).pid ∧
      s'.latest (s.frames bf).pid = s.latest (s.frames bf).pid ∧
      s'.issued (s.frames bf).pid = s.issued (s.frames bf).pid)
    (sound : ∀ bf ∈ touched, s'.Sound bf) (evicted : ∀ pid, s'.swips pid = some .evicted →
      (s'.ssd pid).data = s'.latest pid) : s'.Contents := by
  refine ⟨fun bf => ?_, evicted⟩
  by_cases isTouched : bf ∈ touched
  · exact sound bf isTouched
  · have before := contents.frames bf
    refine sound_of (frames bf isTouched) (writes bf isTouched) ?_
    by_cases isFree : (s.frames bf).state = .free
    · rw [before.none_of_free isFree]
      exact .free isFree
    · obtain ⟨ssd, latest, issued⟩ := pages bf isTouched isFree
      rw [ssd, latest, issued]
      exact before

theorem State.Contents.setFrame (frames : s'.frames = update s.frames bf frame)
    (writes : s'.writes = update s.writes bf write) (ssd : s'.ssd = s.ssd)
    (latest : s'.latest = s.latest) (issued : s'.issued = s.issued)
    (sound : BufferManager.Sound frame (s.ssd frame.pid) (s.latest frame.pid)
      (s.issued frame.pid) write) (evicted : ∀ pid, s'.swips pid = some .evicted →
      s.swips pid = some .evicted ∨ (s.ssd pid).data = s.latest pid) : s'.Contents := by
  refine contents.step [bf] (fun other outside => ?_) (fun other outside => ?_)
    (fun other _ _ => ?_) (forall_mem_singleton.mpr ?_) fun pid isEvicted => ?_
  · rw [frames, update_of_ne (ne_of_not_mem_cons outside)]
  · rw [writes, update_of_ne (ne_of_not_mem_cons outside)]
  · rw [ssd, latest, issued]
    exact ⟨rfl, rfl, rfl⟩
  · refine sound_of (by rw [frames, update_self]) (by rw [writes, update_self]) ?_
    rw [ssd, latest, issued]
    exact sound
  · rw [ssd, latest]
    rcases evicted pid isEvicted with wasEvicted | isLatest
    · exact contents.evicted pid wasEvicted
    · exact isLatest

theorem State.Contents.replace {new : FrameId} {frame newFrame : BufferFrame Data} (ne : new ≠ bf)
    (wasFree : (s.frames new).state = .free) (isFree : frame.state = .free)
    (unwritten : s.writes bf = none)
    (frames : s'.frames = update (update s.frames new newFrame) bf frame)
    (writes : s'.writes = s.writes) (ssd : s'.ssd = s.ssd)
    (latest : s'.latest = s.latest) (issued : s'.issued = s.issued)
    (sound : BufferManager.Sound newFrame (s.ssd newFrame.pid) (s.latest newFrame.pid)
      (s.issued newFrame.pid) none)
    (evicted : ∀ pid, s'.swips pid = some .evicted → s.swips pid = some .evicted) :
    s'.Contents := by
  refine contents.step [new, bf] (fun other outside => ?_) (fun other _ => by rw [writes])
    (fun other _ _ => ?_) ?_ fun pid isEvicted => ?_
  · simp only [mem_cons, not_mem_nil, or_false, not_or] at outside
    rw [frames, update_of_ne outside.2, update_of_ne outside.1]
  · rw [ssd, latest, issued]
    exact ⟨rfl, rfl, rfl⟩
  · refine forall_mem_cons.mpr ⟨?_, forall_mem_singleton.mpr ?_⟩
    · refine sound_of (by rw [frames, update_of_ne ne, update_self])
        (by rw [writes, (contents.frames new).none_of_free wasFree]) ?_
      rw [ssd, latest, issued]
      exact sound
    · exact sound_of (by rw [frames, update_self]) (by rw [writes, unwritten]) (.free isFree)
  · rw [ssd, latest]
    exact contents.evicted pid (evicted pid isEvicted)

theorem State.Contents.keep (frames : s'.frames = s.frames)
    (writes : s'.writes = s.writes) (ssd : s'.ssd = s.ssd)
    (latest : s'.latest = s.latest) (issued : s'.issued = s.issued)
    (evicted : ∀ pid, s'.swips pid = some .evicted → s.swips pid = some .evicted) :
    s'.Contents := by
  refine ⟨fun bf => ?_, fun pid isEvicted => ?_⟩
  · rw [Sound, frames, writes, ssd, latest, issued]
    exact contents.frames bf
  · rw [ssd, latest]
    exact contents.evicted pid (evicted pid isEvicted)

end

theorem evicted_of_update {swips : Pid → Option Swip} {pid other : Pid} {swip : Option Swip}
    (notEvicted : swip ≠ some .evicted) (isEvicted : update swips pid swip other = some .evicted) :
    swips other = some .evicted := by
  by_cases same : other = pid
  · rw [same, update_self] at isEvicted
    exact absurd isEvicted notEvicted
  · rwa [update_of_ne same] at isEvicted

theorem ResolveStep.contents {a : ResolveAction} (contents : s.Contents)
    (inv : Inv cfg s) (taken : ResolveStep cfg s a s') : s'.Contents := by
  have unwritten : ∀ bf, update s.writes bf (s.writes bf) = s.writes :=
    fun bf => Function.update_eq_self bf s.writes
  cases taken with
  | @warm parent pid bf isCool =>
    have sound := contents.frames bf
    refine contents.setFrame rfl (unwritten bf).symm rfl rfl rfl ?_ fun _ isEvicted =>
      .inl (evicted_of_update (by simp) isEvicted)
    exact sound.rehead (.inr (inv.placed.cool isCool).1) (.inl rfl) ⟨rfl, rfl, rfl⟩
  | @readPage t pid e bf isReading =>
    have isFree : (s.frames bf).state = .free := inv.placed.op isReading (mem_singleton_self bf)
    have noWrite := (contents.frames bf).none_of_free isFree
    have isLatest := contents.evicted pid (inv.io.evicted_of_loading isReading)
    refine contents.setFrame rfl (unwritten bf).symm rfl rfl rfl ?_ fun _ => .inl
    rw [noWrite]
    exact .loaded rfl rfl rfl isLatest
  | @redirect t _ _ pid e bf target _ isLoaded isFree =>
    have loaded : (s.frames bf).state = .loaded ∧ (s.frames bf).pid = pid :=
      inv.placed.op isLoaded (mem_singleton_self bf)
    have targetFree := inv.placed.free isFree
    have ne : target ≠ bf := by
      intro same
      rw [same, loaded.1] at targetFree
      cases targetFree
    obtain ⟨noWrite, isBlock, clean, isLatest⟩ := (contents.frames bf).of_loaded loaded.1
    rw [loaded.2] at isBlock isLatest
    exact contents.replace ne targetFree rfl noWrite rfl rfl rfl rfl rfl
      (.loaded rfl isBlock clean isLatest) fun _ => id
  | @swizzleLast t parent pid e bf isInstalling
  | @swizzle t parent pid e bf isInstalling =>
    have loaded : (s.frames bf).state = .loaded ∧ _ :=
      inv.placed.op isInstalling (mem_singleton_self bf)
    refine contents.setFrame rfl (unwritten bf).symm rfl rfl rfl ?_ fun _ isEvicted =>
      .inl (evicted_of_update (by simp) isEvicted)
    exact (contents.frames bf).swizzle loaded.1 rfl ⟨rfl, rfl⟩
  | @takeReadyLast parent pid e bf present hasFrame
  | @takeReady parent pid e bf present hasFrame =>
    have loaded := inv.placed.loaded ((ready_of_present present).trans hasFrame)
    refine contents.setFrame rfl (unwritten bf).symm rfl rfl rfl ?_ fun _ isEvicted =>
      .inl (evicted_of_update (by simp) isEvicted)
    exact (contents.frames bf).swizzle loaded.1 rfl ⟨rfl, rfl⟩
  | _ => exact contents.keep rfl rfl rfl rfl rfl fun _ => id

theorem State.FlagInv.unwritten (flags : s.FlagInv)
    (isDown : (s.frames bf).isBeingWrittenBack = false) : s.writes bf = none := by
  cases isWritten : s.writes bf with
  | none => rfl
  | some write =>
    rw [flags.written bf write isWritten] at isDown
    cases isDown

theorem State.Contents.clean (contents : s.Contents)
    (inUse : (s.frames bf).state = .hot ∨ (s.frames bf).state = .cool)
    (unwritten : s.writes bf = none) (clean : (s.frames bf).isDirty = false) :
    (s.ssd (s.frames bf).pid).data = s.latest (s.frames bf).pid := by
  have sound := contents.frames bf
  rw [Sound, unwritten] at sound
  obtain ⟨isLatest, -, isBlock⟩ := sound.of_quiet inUse
  simp only [isDirty, bne_eq_false_iff_eq] at clean
  rw [← isBlock clean.symm, isLatest]

theorem State.Contents.evict (contents : s.Contents) (inv : Inv cfg s)
    {t : ThreadId} (isCool : s.swips pid = some (.cool bf))
    (isDown : (s.frames bf).isBeingWrittenBack = false)
    (clean : (s.frames bf).isDirty = false) : (s.evictFrame t bf pid).Contents := by
  have cool := inv.placed.cool isCool
  have unwritten := inv.flags.unwritten isDown
  have isLatest := contents.clean (.inr cool.1) unwritten clean
  rw [cool.2] at isLatest
  refine contents.setFrame rfl (Function.update_eq_self bf s.writes).symm rfl rfl rfl ?_
    fun other isEvicted => ?_
  · rw [unwritten]
    exact .free rfl
  · by_cases same : other = pid
    · exact .inr (same ▸ isLatest)
    · have isEvicted : update s.swips pid (some .evicted) other = some .evicted := isEvicted
      rw [update_of_ne same] at isEvicted
      exact .inl isEvicted

theorem ProviderStep.contents {a : ProviderAction} (contents : s.Contents)
    (inv : Inv cfg s) (residency : s.Residency) (taken : ProviderStep s a s') : s'.Contents := by
  have sameWrites : ∀ bf, update s.writes bf (s.writes bf) = s.writes :=
    fun bf => Function.update_eq_self bf s.writes
  cases taken with
  | @cool parent pid bf isHot =>
    refine contents.setFrame rfl (sameWrites bf).symm rfl rfl rfl ?_ fun _ isEvicted =>
      .inl (evicted_of_update (by simp) isEvicted)
    exact (contents.frames bf).rehead (.inl (inv.placed.hot isHot).1) (.inr rfl) ⟨rfl, rfl, rfl⟩
  | @demote t parent pid bf target v isDemoting under isCool unchanged =>
    have valid : Guard.Valid ⟨.demote, bf, pid, v⟩ s :=
      inv.guards.valid t _ (by rw [isDemoting]; rfl) unchanged
    have targetFree : (s.frames target).state = .free :=
      inv.placed.op isDemoting (mem_singleton_self target)
    have cool := inv.placed.cool isCool
    have ne : target ≠ bf := by
      intro same
      rw [same, cool.1] at targetFree
      cases targetFree
    have unwritten := inv.flags.unwritten valid.unwritten
    have sound := contents.frames bf
    rw [State.Sound, unwritten] at sound
    refine contents.replace ne targetFree rfl unwritten rfl rfl rfl rfl rfl ?_
      fun _ => evicted_of_update (by simp)
    exact sound.rehead (.inr cool.1) (.inl rfl) ⟨rfl, rfl, rfl⟩
  | @submit t bf pid v isChecked unchanged =>
    have valid : Guard.Valid ⟨.write, bf, pid, v⟩ s :=
      inv.guards.valid t _ (by rw [isChecked]; rfl) unchanged
    have sound := contents.frames bf
    rw [State.Sound, inv.flags.unwritten valid.unwritten] at sound
    obtain ⟨isLatest, le, -⟩ := sound.of_quiet (.inr valid.isCool)
    have dirty : (s.frames bf).page.plsn ≠ (s.frames bf).lastWrittenPlsn := by
      simpa [Purpose.admits, isDirty] using valid.admitted
    refine contents.setFrame rfl rfl rfl rfl rfl ?_ fun _ => .inl
    refine .writing (.inr valid.isCool) isLatest valid.samePid.symm
      (lt_of_le_of_ne le dirty.symm)
      (le_refl _) (fun _ => rfl) (fun finished => by cases finished) ?_
    exact congrArg s.issued valid.samePid.symm
  | @finishWrite bf write isWritten =>
    have sound := contents.frames bf
    rw [State.Sound, isWritten] at sound
    obtain ⟨inUse, samePid, -⟩ := sound.of_write
    have hasPage : (s.frames bf).state ≠ .free := by rcases inUse with h | h <;> simp [h]
    refine contents.step [bf] (fun _ _ => rfl) (fun other outside => ?_)
      (fun other outside otherHasPage => ⟨?_, rfl, rfl⟩) (forall_mem_singleton.mpr ?_)
      fun pid isEvicted => ?_
    · exact update_of_ne (ne_of_not_mem_cons outside) _ _
    · refine update_of_ne (fun same => ?_) _ _
      exact ne_of_not_mem_cons outside
        (residency.unique other bf otherHasPage hasPage (same.trans samePid))
    · refine sound_of rfl (update_self _ _ _) ?_
      have isBlock : update s.ssd write.pid write.page (s.frames bf).pid = write.page := by
        rw [← samePid, update_self]
      simp only [setWrite, setBlock, isBlock]
      exact sound.finish
    · have ne : pid ≠ write.pid := by
        intro same
        rw [same, samePid] at isEvicted
        have isLoaded := residency.evicted bf hasPage isEvicted
        simp [isLoaded] at inUse
      have isLatest := contents.evicted pid isEvicted
      simpa [setWrite, setBlock, update_of_ne ne] using isLatest
  | @writtenBack t bf write isWritten _ finished =>
    have sound := contents.frames bf
    rw [State.Sound, isWritten] at sound
    refine contents.setFrame rfl rfl rfl rfl rfl ?_ fun _ => .inl
    exact sound.writtenBack finished ⟨rfl, rfl⟩ rfl
  | @writtenBackLost t bf write isWritten =>
    have sound := contents.frames bf
    rw [State.Sound, isWritten] at sound
    refine contents.setFrame rfl rfl rfl rfl rfl ?_ fun _ => .inl
    exact sound.writtenBackLost ⟨rfl, rfl, rfl⟩
  | @evict t parent pid bf v isChecked under isCool unchanged =>
    have valid : Guard.Valid ⟨.evict, bf, pid, v⟩ s :=
      inv.guards.valid t _ (by rw [isChecked]; rfl) unchanged
    exact contents.evict inv isCool valid.unwritten (by simpa [Purpose.admits] using valid.admitted)
  | evictWritten _ under isCool unwritten clean => exact contents.evict inv isCool unwritten clean
  | @promote parent pid _ _ bf target _ isHot isFree under _ isDown =>
    have hot := inv.placed.hot isHot
    have targetFree := inv.placed.free isFree
    have ne : target ≠ bf := by
      intro same
      rw [same, hot.1] at targetFree
      cases targetFree
    have unwritten := inv.flags.unwritten isDown
    have sound := contents.frames bf
    rw [State.Sound, unwritten] at sound
    refine contents.replace ne targetFree rfl unwritten rfl rfl rfl rfl rfl ?_
      fun _ => evicted_of_update (by simp)
    exact sound.rehead (.inl hot.1) (.inl rfl) ⟨rfl, rfl, rfl⟩
  | _ => exact contents.keep rfl rfl rfl rfl rfl fun _ => id

theorem State.Contents.modify (contents : s.Contents) (residency : s.Residency)
    (hot : (s.frames bf).state = .hot ∧ (s.frames bf).pid = pid)
    (frames : s'.frames = update s.frames bf frame)
    (later : (s.frames bf).page.plsn < frame.page.plsn)
    (same : frame.state = (s.frames bf).state ∧ frame.pid = (s.frames bf).pid ∧
      frame.lastWrittenPlsn = (s.frames bf).lastWrittenPlsn)
    (writes : s'.writes = s.writes) (ssd : s'.ssd = s.ssd)
    (latest : s'.latest = update s.latest pid frame.page.data)
    (issued : s'.issued = s.issued) (swips : s'.swips = s.swips) : s'.Contents := by
  have hasPage : (s.frames bf).state ≠ .free := by simp [hot.1]
  refine contents.step [bf] (fun other outside => ?_) (fun other _ => by rw [writes])
    (fun other outside otherHasPage => ⟨by rw [ssd], ?_, by rw [issued]⟩)
    (forall_mem_singleton.mpr ?_) fun other isEvicted => ?_
  · rw [frames, update_of_ne (ne_of_not_mem_cons outside)]
  · rw [latest, update_of_ne]
    intro same
    exact ne_of_not_mem_cons outside
      (residency.unique other bf otherHasPage hasPage (same.trans hot.2.symm))
  · refine sound_of (by rw [frames, update_self]) (by rw [writes]) ?_
    have isLatest : s'.latest frame.pid = frame.page.data := by
      rw [latest, same.2.1, hot.2, update_self]
    rw [ssd, issued, isLatest, same.2.1]
    exact (contents.frames bf).modify (.inl hot.1) later same
  · rw [swips] at isEvicted
    have ne : other ≠ pid := by
      intro same
      rw [same, ← hot.2] at isEvicted
      have isLoaded := residency.evicted bf hasPage isEvicted
      simp [isLoaded] at hot
    rw [ssd, latest, update_of_ne ne]
    exact contents.evicted other isEvicted

theorem State.Contents.initNewPage (contents : s.Contents) (residency : s.Residency)
    {blank : Data} (isFree : (s.frames bf).state = .free) (unused : ∀ place, pid ∉ s.uses place)
    (frames : s'.frames = update s.frames bf ((s.frames bf).initNew bf.tier pid blank))
    (writes : s'.writes = s.writes) (ssd : s'.ssd = s.ssd)
    (latest : s'.latest = update s.latest pid blank)
    (issued : s'.issued = update s.issued pid (s.issued pid + 1))
    (swips : s'.swips = s.swips) : s'.Contents := by
  have elsewhere : ∀ other, (s.frames other).state ≠ .free →
      (s.frames other).pid ≠ pid := by
    intro other hasPage same
    obtain ⟨place, used⟩ := residency.used other hasPage
    exact unused place (same ▸ used)
  refine contents.step [bf] (fun other outside => ?_) (fun other _ => by rw [writes])
    (fun other _ hasPage => ⟨by rw [ssd], ?_, ?_⟩) (forall_mem_singleton.mpr ?_)
    fun other isEvicted => ?_
  · rw [frames, update_of_ne (ne_of_not_mem_cons outside)]
  · rw [latest, update_of_ne (elsewhere other hasPage)]
  · rw [issued, update_of_ne (elsewhere other hasPage)]
  · refine sound_of (by rw [frames, update_self])
      (by rw [writes, (contents.frames bf).none_of_free isFree]) ?_
    refine .quiet (.inl rfl) ?_ (Nat.zero_le _) fun clean => by cases clean
    rw [latest]
    exact (update_self pid blank s.latest).symm
  · rw [swips] at isEvicted
    have ne : other ≠ pid := by
      intro same
      refine unused (.linked pid) ?_
      simp [uses, ← same, isEvicted]
    rw [ssd, latest, update_of_ne ne]
    exact contents.evicted other isEvicted

theorem PageStep.contents {a : PageAction Data} (contents : s.Contents)
    (inv : Inv cfg s) (residency : s.Residency) (issuesReclaimed : IssuesReclaimed cfg s (.page a))
    (taken : PageStep cfg s a s') : s'.Contents := by
  have sameWrites : ∀ bf, update s.writes bf (s.writes bf) = s.writes :=
    fun bf => Function.update_eq_self bf s.writes
  cases taken with
  | @initNewPage t partition bf pid _ isAllocating inRange issues isNext =>
    have isFree : (s.frames bf).state = .free := inv.placed.op isAllocating (mem_singleton_self bf)
    have unused := issues.unused inRange inv.pids fun other frame =>
      isNext ▸ issuesReclaimed other frame
    cases issues <;>
      exact contents.initNewPage residency isFree unused rfl rfl rfl rfl rfl rfl
  | @modifyNew t page bf pid isAllocated later =>
    have hot : (s.frames bf).state = .hot ∧ (s.frames bf).pid = pid :=
      inv.placed.op isAllocated (mem_singleton_self bf)
    exact contents.modify residency hot rfl later ⟨rfl, rfl, rfl⟩ rfl rfl rfl rfl rfl
  | @modify pid page bf isHot later =>
    exact contents.modify residency (inv.placed.hot isHot) rfl later ⟨rfl, rfl, rfl⟩ rfl rfl
      rfl rfl rfl
  | @link t _ pid bf _ isAllocated | @createMeta t pid bf isAllocated =>
    have hot : (s.frames bf).state = .hot ∧ _ := inv.placed.op isAllocated (mem_singleton_self bf)
    refine contents.setFrame rfl (sameWrites bf).symm rfl rfl rfl ?_ fun _ isEvicted =>
      .inl (evicted_of_update (by simp) isEvicted)
    exact (contents.frames bf).rehead (.inl hot.1) (.inl hot.1) ⟨rfl, rfl, rfl⟩
  | unlink => exact contents.keep rfl rfl rfl rfl rfl fun _ => evicted_of_update (by simp)
  | @reclaimWritten t partition pid bf isReclaiming =>
    have hot : (s.frames bf).state = .hot ∧ _ := inv.placed.op isReclaiming (mem_singleton_self bf)
    refine contents.setFrame rfl (sameWrites bf).symm rfl rfl rfl ?_ fun _ => .inl
    exact (contents.frames bf).rehead (.inl hot.1) (.inl hot.1) ⟨rfl, rfl, rfl⟩
  | @reclaimFrame t partition pid bf isReclaiming isDown =>
    refine contents.setFrame rfl (sameWrites bf).symm rfl rfl rfl ?_ fun _ => .inl
    rw [inv.flags.unwritten isDown]
    exact .free rfl
  | _ => exact contents.keep rfl rfl rfl rfl rfl fun _ => id

theorem Initial.contents (initial : Initial cfg s) : s.Contents := by
  refine ⟨fun bf => ?_, fun pid isEvicted => ?_⟩
  · exact sound_of rfl (initial.noWrite bf) (.free (initial.allFree bf).1)
  · rw [(initial.noPage pid).1] at isEvicted
    cases isEvicted

def OwnsPids (cfg : Config Data) (s : State Data) (a : Action Data) : Prop :=
  ReclaimsUnwritten s a ∧ EvictsUnread s a ∧ IssuesReclaimed cfg s a ∧ ClearsUnguarded s a

structure PageInv (cfg : Config Data) (s : State Data) : Prop where
  inv : Inv cfg s
  present : s.Present
  uses : Linear s.uses
  contents : s.Contents

theorem PageInv.residency (pages : PageInv cfg s) : s.Residency :=
  pages.inv.residency pages.present pages.uses

theorem PageInv.step (pages : PageInv cfg s) (owns : OwnsPids cfg s a)
    (taken : Step cfg s a s') : PageInv cfg s' := by
  obtain ⟨reclaimsUnwritten, evictsUnread, issuesReclaimed, clearsUnguarded⟩ := owns
  refine ⟨pages.inv.step evictsUnread clearsUnguarded taken,
    pages.inv.present pages.present reclaimsUnwritten taken,
    taken.uses_linear pages.inv.pids pages.uses issuesReclaimed, ?_⟩
  cases taken with
  | resolve taken => exact taken.contents pages.contents pages.inv
  | provide taken => exact taken.contents pages.contents pages.inv pages.residency
  | page taken => exact taken.contents pages.contents pages.inv pages.residency issuesReclaimed

theorem Initial.pageInv (initial : Initial cfg s) : PageInv cfg s :=
  ⟨initial.inv, fun bf hasPage => absurd (initial.allFree bf).1 hasPage, initial.uses_linear,
    initial.contents⟩

def KeepsContents (s : State Data) (a : Action Data) : Prop :=
  KeepsPages a ∧ EvictsUnread s a ∧ ClearsUnguarded s a

def Op.reclaims : Op → Bool
  | .unlinked _ _ => true
  | .reclaiming _ _ => true
  | _ => false

theorem Step.none_reclaims (none : ∀ t, (s.threads t).reclaims = false)
    (keepsPages : KeepsPages a) (taken : Step cfg s a s')
    (t : ThreadId) : (s'.threads t).reclaims = false := by
  have new : ∀ {other : ThreadId} {op : Op}, op.reclaims = false →
      (update s.threads other op t).reclaims = false := by
    intro other op isFalse
    by_cases same : t = other
    · rw [same, update_self]
      exact isFalse
    · rw [update_of_ne same]
      exact none t
  cases taken with
  | resolve taken | provide taken => cases taken <;> first | exact none t | exact new rfl
  | page taken =>
    cases taken with
    | initNewPage _ _ issues => cases issues <;> exact new rfl
    | discard => exact keepsPages.elim
    | unlink => exact keepsPages.elim
    | @recycle other pid bf isUnlinked | @retire other pid bf isUnlinked =>
      have := none other
      rw [isUnlinked] at this
      cases this
    | _ => first | exact none t | exact new rfl

theorem ownsPids_of_keepsContents (none : ∀ t, (s.threads t).reclaims = false)
    (keeps : KeepsContents s a) : OwnsPids cfg s a := by
  have notReclaiming : ∀ t bf pid, s.threads t ≠ .reclaiming bf pid := by
    intro t bf pid isReclaiming
    have := none t
    rw [isReclaiming] at this
    cases this
  obtain ⟨-, evictsUnread, clearsUnguarded⟩ := keeps
  refine ⟨?_, evictsUnread, ?_, clearsUnguarded⟩
  · unfold ReclaimsUnwritten
    split
    · split
      · next isReclaiming => exact absurd isReclaiming (notReclaiming _ _ _)
      · trivial
    · trivial
  · unfold IssuesReclaimed
    split
    · exact fun t bf => notReclaiming t bf _
    · trivial

theorem ownsPids_of_reachable {allowed : State Data → Action Data → Prop}
    (keeps : ∀ s a, allowed s a → KeepsContents s a)
    (reached : Transition.Reachable (step cfg) (Initial cfg) allowed s) :
    Transition.Reachable (step cfg) (Initial cfg)
      (fun s a => OwnsPids cfg s a ∧ allowed s a) s := by
  have none : ∀ s, Transition.Reachable (step cfg) (Initial cfg) allowed s →
      ∀ t, (s.threads t).reclaims = false := by
    intro s reached
    refine reached.invariant (fun s => ∀ t, (s.threads t).reclaims = false)
      (fun s initial t => ?_) fun s a s' none isAllowed taken => ?_
    · rw [initial.allIdle]
      rfl
    · exact (step_sound taken).none_reclaims none (keeps s a isAllowed).1
  exact reached.strengthen none fun s a none isAllowed =>
    ⟨ownsPids_of_keepsContents none (keeps s a isAllowed), isAllowed⟩

theorem keepsContents_of_isPlain (s : State Data) (a : Action Data)
    (isPlain : a.isPlain s = true) : KeepsContents s a :=
  ⟨keepsPages_of_isPlain isPlain, evictsUnread_of_isPlain isPlain,
    (clearsFresh_of_isPlain isPlain).unguarded⟩

end TieredStore.BufferManager
