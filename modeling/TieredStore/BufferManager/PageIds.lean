import TieredStore.Lib.Transition

/-! The page ids that the DRAM partitions hand out, over restarts. -/

namespace TieredStore.PageIds

open Transition Function List

/-- The back of the vector `freed_pids` is the head of the list. -/
structure Partition where
  freedPids : List Nat
  nextPid : Nat
  deriving DecidableEq

structure Config where
  partitionBits : Nat
  ssdGib : Nat

def Config.count (config : Config) : Nat := 2 ^ config.partitionBits

def Config.mask (config : Config) : Nat := config.count - 1

/-- The last two fields are not part of the program: the ids that were issued and not freed
since, and whether the system was restarted. -/
structure Allocator where
  partitions : Nat → Partition
  live : List Nat
  restarted : Bool

def pageSize : Nat := 16 * 1024

def Partition.nextPID (config : Config) (partition : Partition) : Option (Nat × Partition) :=
  match partition.freedPids with
  | pid :: rest => some (pid, { partition with freedPids := rest })
  | [] =>
    if partition.nextPid * pageSize / 1024 / 1024 / 1024 ≤ config.ssdGib then
      some (partition.nextPid,
        { partition with nextPid := partition.nextPid + config.count })
    else none

def Partition.freePageID (partition : Partition) (pid : Nat) : Partition :=
  { partition with freedPids := pid :: partition.freedPids }

def getPageIDAllocatorPartitionID (config : Config) (pid : Nat) : Nat := pid &&& config.mask

def serialize (config : Config) (partitions : Nat → Partition) : Nat :=
  (Finset.range config.count).sup fun index =>
    (partitions (getPageIDAllocatorPartitionID config index)).nextPid

/-- The partitions of a new process.  What the mask leaves of a number is taken off it. -/
def deserialize (config : Config) (maxPid : Nat) (index : Nat) : Partition :=
  let rounded := maxPid + config.mask - ((maxPid + config.mask) &&& config.mask)
  ⟨[], rounded + index⟩

def Config.allocatedPages (config : Config) (partition : Partition) : Nat :=
  partition.nextPid / config.count

def Partition.freedPageIDs (partition : Partition) : Nat := partition.freedPids.length

def Config.total (config : Config) (measure : Partition → Nat) (partitions : Nat → Partition) :
    Nat :=
  ∑ index ∈ Finset.range config.count, measure (partitions index)

def inUsedPageIDCount (config : Config) (partitions : Nat → Partition) : Nat :=
  config.total config.allocatedPages partitions - config.total Partition.freedPageIDs partitions

inductive Action
  | nextPID (index : Nat)
  | freePageID (pid : Nat)
  | restart

def step (config : Config) (state : Allocator) : Action → Option Allocator
  | .nextPID index =>
    if index < config.count then
      match (state.partitions index).nextPID config with
      | none => none
      | some (pid, partition) =>
        some { state with
          partitions := update state.partitions index partition
          live := pid :: state.live }
    else none
  | .freePageID pid =>
    if pid ∈ state.live then
      let index := getPageIDAllocatorPartitionID config pid
      some { state with
        partitions := update state.partitions index ((state.partitions index).freePageID pid)
        live := state.live.erase pid }
    else none
  | .restart =>
    some ⟨deserialize config (serialize config state.partitions), state.live, true⟩

def Initial (s : Allocator) : Prop :=
  s = ⟨fun i => ⟨[], i⟩, [], false⟩

variable {cfg : Config} {s s' : Allocator} {a : Action} {partitions : Nat → Partition}
  {partition : Partition} {i index pid : Nat}

theorem partitionID_eq (pid : Nat) : getPageIDAllocatorPartitionID cfg pid = pid % cfg.count :=
  Nat.and_two_pow_sub_one_eq_mod pid cfg.partitionBits

theorem count_pos (cfg : Config) : 0 < cfg.count := Nat.two_pow_pos _

theorem nextPid_le_serialize (inside : i < cfg.count) :
    (partitions i).nextPid ≤ serialize cfg partitions := by
  have le := Finset.le_sup (f := fun i =>
    (partitions (getPageIDAllocatorPartitionID cfg i)).nextPid) (Finset.mem_range.mpr inside)
  rwa [partitionID_eq, Nat.mod_eq_of_lt inside] at le

theorem deserialize_nextPid (maxPid : Nat) (inside : i < cfg.count) :
    maxPid ≤ (deserialize cfg maxPid i).nextPid ∧
      (deserialize cfg maxPid i).nextPid % cfg.count = i := by
  have isMod := Nat.and_two_pow_sub_one_eq_mod (maxPid + cfg.mask) cfg.partitionBits
  have positive := count_pos cfg
  have below := Nat.mod_lt (maxPid + cfg.mask) positive
  obtain ⟨_, isMultiple⟩ := Nat.dvd_sub_mod (n := cfg.count) (maxPid + cfg.mask)
  simp only [deserialize]
  rw [show (maxPid + cfg.mask) &&& cfg.mask = (maxPid + cfg.mask) % cfg.count
    from isMod]
  refine ⟨?_, ?_⟩
  · simp only [Config.mask] at below positive ⊢
    omega
  · rw [isMultiple, Nat.mul_add_mod, Nat.mod_eq_of_lt inside]

structure Inv (cfg : Config) (s : Allocator) : Prop where
  residue : ∀ i < cfg.count, (s.partitions i).nextPid % cfg.count = i
  freed : ∀ i < cfg.count, ∀ pid ∈ (s.partitions i).freedPids,
    pid % cfg.count = i ∧ pid < (s.partitions i).nextPid ∧ pid ∉ s.live
  freedOnce : ∀ i < cfg.count, (s.partitions i).freedPids.Nodup
  live : ∀ pid ∈ s.live, pid < (s.partitions (pid % cfg.count)).nextPid
  liveOnce : s.live.Nodup
  counted : s.restarted = false → cfg.total cfg.allocatedPages s.partitions =
      s.live.length + cfg.total Partition.freedPageIDs s.partitions

theorem total_update (measure : Partition → Nat) (partitions : Nat → Partition)
    (partition : Partition) (inside : i < cfg.count) :
    cfg.total measure (update partitions i partition) + measure (partitions i) =
      cfg.total measure partitions + measure partition := by
  have mem := Finset.mem_range.mpr inside
  have updated : (fun other => measure (update partitions i partition other)) =
      update (fun other => measure (partitions other)) i (measure partition) := by
    funext other
    exact apply_update (fun _ => measure) partitions i partition other
  rw [Config.total, updated, Finset.sum_update_of_mem mem, Config.total,
    Finset.sum_eq_add_sum_sdiff_singleton_of_mem mem fun other => measure (partitions other)]
  omega

theorem nextPID_cases {next : Partition} (issued : partition.nextPID cfg = some (pid, next)) :
    (partition.freedPids = pid :: next.freedPids ∧ next.nextPid = partition.nextPid) ∨
      (partition.freedPids = [] ∧ next.freedPids = [] ∧ pid = partition.nextPid ∧
        next.nextPid = partition.nextPid + cfg.count) := by
  unfold Partition.nextPID at issued
  split at issued
  · rename_i isFreed
    cases issued
    exact .inl ⟨isFreed, rfl⟩
  · rename_i noneFreed
    split at issued
    · cases issued
      exact .inr ⟨noneFreed, noneFreed, rfl, rfl⟩
    · contradiction

theorem Inv.issued (inv : Inv cfg s) (inside : i < cfg.count)
    (issued : (s.partitions i).nextPID cfg = some (pid, partition)) :
    pid % cfg.count = i ∧ pid ∉ s.live := by
  rcases nextPID_cases issued with ⟨isFreed, -⟩ | ⟨-, -, rfl, -⟩
  · obtain ⟨residue, -, notLive⟩ := inv.freed i inside pid (by simp [isFreed])
    exact ⟨residue, notLive⟩
  · refine ⟨inv.residue i inside, fun isLive => ?_⟩
    have below := inv.live _ isLive
    rw [inv.residue i inside] at below
    exact lt_irrefl _ below

theorem Inv.change (inv : Inv cfg s) (inside : i < cfg.count) {live : List Nat}
    (aligned : partition.nextPid % cfg.count = i)
    (later : (s.partitions i).nextPid ≤ partition.nextPid) (freed : ∀ other ∈ partition.freedPids,
      other % cfg.count = i ∧ other < partition.nextPid ∧ other ∉ live)
    (freedOnce : partition.freedPids.Nodup) (isLive : ∀ other ∈ live,
      other ∈ s.live ∨ other % cfg.count = i ∧ other < partition.nextPid) (liveOnce : live.Nodup)
    (balance : cfg.allocatedPages partition + (s.partitions i).freedPageIDs + s.live.length =
      cfg.allocatedPages (s.partitions i) + partition.freedPageIDs + live.length) :
    Inv cfg { s with partitions := update s.partitions i partition, live := live } where
  residue other isInside := by
    by_cases same : other = i
    · simpa [same] using aligned
    · simpa [update_of_ne same] using inv.residue other isInside
  freed other isInside found mem := by
    by_cases same : other = i
    · simp only [same, update_self] at mem ⊢
      exact freed found mem
    · simp only [update_of_ne same] at mem ⊢
      obtain ⟨residue, below, notLive⟩ := inv.freed other isInside found mem
      refine ⟨residue, below, fun its => ?_⟩
      rcases isLive found its with old | ⟨residue', -⟩
      · exact notLive old
      · exact same (residue.symm.trans residue')
  freedOnce other isInside := by
    by_cases same : other = i
    · simpa [same] using freedOnce
    · simpa [update_of_ne same] using inv.freedOnce other isInside
  live found mem := by
    by_cases same : found % cfg.count = i
    · rcases isLive found mem with old | ⟨-, below⟩
      · have below := inv.live found old
        simp only [same, update_self] at below ⊢
        omega
      · simpa [same] using below
    · rcases isLive found mem with old | ⟨residue, -⟩
      · simpa [update_of_ne same] using inv.live found old
      · exact absurd residue same
  liveOnce := liveOnce
  counted running := by
    have counted := inv.counted running
    have allocated := total_update cfg.allocatedPages s.partitions partition inside
    have freed := total_update Partition.freedPageIDs s.partitions partition inside
    dsimp only
    omega

theorem Inv.nextPID (inv : Inv cfg s) (inside : i < cfg.count)
    (issued : (s.partitions i).nextPID cfg = some (pid, partition)) :
    Inv cfg { s with
      partitions := update s.partitions i partition, live := pid :: s.live } := by
  obtain ⟨residue, notLive⟩ := inv.issued inside issued
  have freedOnce := inv.freedOnce i inside
  have freed := inv.freed i inside
  have aligned := inv.residue i inside
  have liveOnce : (pid :: s.live).Nodup := nodup_cons.mpr ⟨notLive, inv.liveOnce⟩
  rcases nextPID_cases issued with ⟨isFreed, same⟩ | ⟨noneFreed, stillNone, _, after⟩
  · rw [isFreed] at freedOnce freed
    obtain ⟨notAgain, restOnce⟩ := nodup_cons.mp freedOnce
    refine inv.change inside (same ▸ aligned) same.ge ?_ restOnce ?_ liveOnce ?_
    · intro other mem
      obtain ⟨residue', below, notLive'⟩ := freed other (mem_cons_of_mem _ mem)
      refine ⟨residue', same ▸ below, ?_⟩
      rintro (_ | ⟨_, its⟩)
      · exact notAgain mem
      · exact notLive' its
    · rintro other (_ | ⟨_, its⟩)
      · exact .inr ⟨residue, same ▸ (freed pid mem_cons_self).2.1⟩
      · exact .inl its
    · simp only [Config.allocatedPages, Partition.freedPageIDs, same, isFreed, length_cons]
      omega
  · have positive := count_pos cfg
    refine inv.change inside (by rw [after, Nat.add_mod_right, aligned]) (by omega) ?_ ?_ ?_
      liveOnce ?_
    · simp [stillNone]
    · simp [stillNone]
    · rintro other (_ | ⟨_, its⟩)
      · exact .inr ⟨residue, by omega⟩
      · exact .inl its
    · simp only [Config.allocatedPages, Partition.freedPageIDs, after, noneFreed, stillNone,
        length_cons, Nat.add_div_right _ positive]
      omega

theorem Inv.freePageID (inv : Inv cfg s) (isLive : pid ∈ s.live) :
    Inv cfg { s with
      partitions := update s.partitions (pid % cfg.count)
        ((s.partitions (pid % cfg.count)).freePageID pid)
      live := s.live.erase pid } := by
  have inside := Nat.mod_lt pid (count_pos cfg)
  have freed := inv.freed _ inside
  refine inv.change inside (inv.residue _ inside) (le_refl _) ?_ ?_ ?_
    (inv.liveOnce.erase pid) ?_
  · rintro other (_ | ⟨_, mem⟩)
    · exact ⟨rfl, inv.live pid isLive, inv.liveOnce.not_mem_erase⟩
    · obtain ⟨residue, below, notLive⟩ := freed other mem
      exact ⟨residue, below, fun its => notLive (mem_of_mem_erase its)⟩
  · refine nodup_cons.mpr ⟨fun mem => ?_, inv.freedOnce _ inside⟩
    exact (freed pid mem).2.2 isLive
  · exact fun other mem => .inl (mem_of_mem_erase mem)
  · have positive := length_pos_of_mem isLive
    simp only [Config.allocatedPages, Partition.freedPageIDs, Partition.freePageID, length_cons,
      length_erase_of_mem isLive]
    omega

theorem Inv.restart (inv : Inv cfg s) :
    Inv cfg ⟨deserialize cfg (serialize cfg s.partitions), s.live, true⟩ where
  residue i inside := (deserialize_nextPid _ inside).2
  freed _ _ _ mem := nomatch mem
  freedOnce _ _ := nodup_nil
  live pid isLive := by
    have inside := Nat.mod_lt pid (count_pos cfg)
    exact lt_of_lt_of_le (lt_of_lt_of_le (inv.live pid isLive)
      (nextPid_le_serialize inside)) (deserialize_nextPid _ inside).1
  liveOnce := inv.liveOnce
  counted running := nomatch running

theorem Inv.step (inv : Inv cfg s) (taken : step cfg s a = some s') : Inv cfg s' := by
  cases a with
  | nextPID i =>
    simp only [step] at taken
    split at taken
    · rename_i inside
      split at taken
      · contradiction
      · rename_i pid partition issued
        cases taken
        exact inv.nextPID inside issued
    · contradiction
  | freePageID pid =>
    simp only [step, partitionID_eq] at taken
    split at taken
    · rename_i isLive
      cases taken
      exact inv.freePageID isLive
    · contradiction
  | restart =>
    cases taken
    exact inv.restart

theorem Initial.inv (initial : Initial s) : Inv cfg s := by
  subst initial
  refine ⟨fun i inside => Nat.mod_eq_of_lt inside, ?_, ?_, ?_, nodup_nil, fun _ => ?_⟩
  · simp
  · simp
  · simp
  · have none : ∀ i ∈ Finset.range cfg.count,
        cfg.allocatedPages ⟨[], i⟩ = 0 :=
      fun i inside => Nat.div_eq_of_lt (mem_range.mp inside)
    simp [Config.total, Finset.sum_eq_zero none, Partition.freedPageIDs]

theorem page_ids_issued_once (reached : Reachable (step cfg) Initial (fun _ _ => True) s) :
    (∀ index < cfg.count, ∀ pid partition,
      (s.partitions index).nextPID cfg = some (pid, partition) →
        pid % cfg.count = index ∧ pid ∉ s.live) ∧ s.live.Nodup ∧
      (s.restarted = false → inUsedPageIDCount cfg s.partitions = s.live.length) := by
  have inv : Inv cfg s :=
    reached.invariant (Inv cfg) (fun _ initial => initial.inv) fun _ _ _ inv _ => inv.step
  refine ⟨fun _ inside _ _ issued => inv.issued inside issued, inv.liveOnce, fun running => ?_⟩
  rw [inUsedPageIDCount, inv.counted running, Nat.add_sub_cancel]

theorem page_ids_issued_once_restarted :
    (deserialize ⟨1, 1⟩ 3 1).nextPID ⟨1, 1⟩ = some (5, ⟨[], 7⟩) ∧
      5 % Config.count ⟨1, 1⟩ = 1 ∧ 5 ∉ [1] := by
  have ran : run (step ⟨1, 1⟩) ⟨fun index => ⟨[], index⟩, [], false⟩ [.nextPID 1, .restart] =
      some ⟨deserialize ⟨1, 1⟩ 3, [1], true⟩ := rfl
  have reached := (Reachable.start rfl : Reachable (step ⟨1, 1⟩) Initial (fun _ _ => True) _)
    |>.run_of_forall (fun _ _ _ => trivial) ran
  have issued : (deserialize ⟨1, 1⟩ 3 1).nextPID ⟨1, 1⟩ = some (5, ⟨[], 7⟩) := by decide
  exact ⟨issued, (page_ids_issued_once reached).1 1 (by decide) 5 _ issued⟩

end TieredStore.PageIds
