import TieredStore.Lib.ByteMemory
import TieredStore.RecordCache.State

/-!
The places that build the key of a cached record: a stack buffer in a lookup
or an update, an owned string in a promotion request, and the comparison of
the promote thread, which strips the tree id again.
-/

namespace TieredStore.RecordCache.PrefixedKey

open ByteMemory List

/-- A key buffer after a call: its size, the stores into it and the key read from it. -/
structure KeyBuffer where
  size : Nat
  stores : List (Nat × UInt8)
  key : Bytes

def KeyBuffer.Inside (buffer : KeyBuffer) : Prop :=
  ∀ store ∈ buffer.stores, store.1 < buffer.size

/-- `DTID` is an `s64`, and the cache takes it as a `u16`. -/
def narrow (dtId : Int64) : UInt16 := UInt16.ofInt dtId.toInt

def dtIdBytes (dtId : UInt16) : Bytes := [dtId.toUInt8, (dtId >>> 8).toUInt8]

def buildPrefixedKey (config : Config) (dtId : UInt16) (key : Bytes) (size : Nat)
    (buf : ByteMemory.Memory) : KeyBuffer :=
  if config.rcSkipDtIdPrefix then
    ⟨size, [], key⟩
  else
    let stores := memcpy 0 (dtIdBytes dtId) ++ memcpy 2 key
    ⟨size, stores, slice (put buf stores) 0 (2 + key.length)⟩

def buildPrefixedKeyOwning (config : Config) (dtId : UInt16) (key : Bytes) : KeyBuffer :=
  if config.rcSkipDtIdPrefix then
    let stores := memcpy 0 key
    ⟨key.length, stores, slice (put (fun _ => 0) stores) 0 key.length⟩
  else
    let stores := memcpy 0 (dtIdBytes dtId) ++ memcpy 2 key
    ⟨2 + key.length, stores, slice (put (fun _ => 0) stores) 0 (2 + key.length)⟩

/-- The key on the stack of an interceptor.  The assertion is only compiled into builds
with assertions. -/
def stackKey (config : Config) (assertions : Bool) (dtId : Int64) (key : Bytes)
    (stack : ByteMemory.Memory) : Option KeyBuffer :=
  let size := 128
  if assertions && !decide (2 + key.length ≤ size) then
    none
  else
    some (buildPrefixedKey config (narrow dtId) key size stack)

def tryLookupInRecordCache := stackKey

def tryUpdateAndInvalidateRecordCache := stackKey

def signalPromoteThread (config : Config) (dtId : Int64) (key : Bytes) : KeyBuffer :=
  buildPrefixedKeyOwning config (narrow dtId) key

def signalDirectUpdatePromote (config : Config) (dtId : Int64) (key : Bytes) : KeyBuffer :=
  buildPrefixedKeyOwning config (narrow dtId) key

/-- The key comparison of phase 2, with the stores into `page_key_buf`. -/
def phase2Recheck (config : Config) (requestKey pageKey : Bytes) : KeyBuffer × Bool :=
  let prefixBytes := UInt16.ofNat config.prefixBytes
  let keyLength := UInt16.ofNat requestKey.length
  let pageKeyLen := UInt16.ofNat pageKey.length
  if keyLength < prefixBytes ∨ pageKeyLen ≠ keyLength - prefixBytes then
    (⟨256, [], []⟩, false)
  else if 256 < pageKeyLen then
    (⟨256, [], []⟩, false)
  else
    let stores := memcpy 0 pageKey
    let copied := slice (put (fun _ => 0) stores) 0 pageKeyLen.toNat
    (⟨256, stores, copied⟩, copied == (requestKey.drop config.prefixBytes).take pageKeyLen.toNat)

@[simp] theorem length_dtIdBytes (dtId : UInt16) : (dtIdBytes dtId).length = 2 := rfl

theorem dtIdBytes_injective {dtId dtId' : UInt16} (same : dtIdBytes dtId = dtIdBytes dtId') :
    dtId = dtId' := by
  simp only [dtIdBytes, cons.injEq, ← UInt8.toNat_inj] at same
  rw [← UInt16.toNat_inj]
  obtain ⟨low, high⟩ := same
  simp at low high
  have := dtId.toNat_lt
  have := dtId'.toNat_lt
  omega

theorem narrow_eq_iff {dtId dtId' : Int64} :
    narrow dtId = narrow dtId' ↔ dtId.toInt % 2 ^ 16 = dtId'.toInt % 2 ^ 16 := by
  rw [← UInt16.toNat_inj]
  simp only [narrow, UInt16.ofInt, UInt16.toNat_ofNat']
  omega

theorem buildPrefixedKey_of_not_skip (cfg : Config) (dtId : UInt16)
    (off : cfg.rcSkipDtIdPrefix = false) (key : Bytes) :
    { cfg with dtId }.buildPrefixedKey key = dtIdBytes dtId ++ key := by
  unfold Config.buildPrefixedKey
  rw [if_neg (by simp [off])]
  rfl

theorem slice_put_memcpy (memory : ByteMemory.Memory) (bytes : Bytes) :
    slice (put memory (memcpy 0 bytes)) 0 bytes.length = bytes :=
  stores_put_memcpy memory 0 bytes

theorem memcpy_dtIdBytes (dtId : UInt16) (key : Bytes) :
    memcpy 0 (dtIdBytes dtId) ++ memcpy 2 key = memcpy 0 (dtIdBytes dtId ++ key) := rfl

section Builders

variable (cfg : Config) (dtId : UInt16) (key : Bytes)

theorem buildPrefixedKey_key (size : Nat) (buf : ByteMemory.Memory) :
    (buildPrefixedKey cfg dtId key size buf).key = { cfg with dtId }.buildPrefixedKey key := by
  unfold buildPrefixedKey Config.buildPrefixedKey
  split
  · rfl
  · have read := slice_put_memcpy buf (dtIdBytes dtId ++ key)
    rw [← memcpy_dtIdBytes, length_append] at read
    exact read

theorem buildPrefixedKey_inside (size : Nat) (buf : ByteMemory.Memory) :
    (buildPrefixedKey cfg dtId key size buf).Inside ↔
      cfg.rcSkipDtIdPrefix = true ∨ 2 + key.length ≤ size := by
  unfold KeyBuffer.Inside buildPrefixedKey
  cases skip : cfg.rcSkipDtIdPrefix with
  | true => simp
  | false =>
    simp only [Bool.false_eq_true, if_false, memcpy_dtIdBytes, forall_mem_memcpy]
    simp [dtIdBytes]
    omega

theorem buildPrefixedKeyOwning_spec : (buildPrefixedKeyOwning cfg dtId key).Inside ∧
      (buildPrefixedKeyOwning cfg dtId key).key = { cfg with dtId }.buildPrefixedKey key := by
  unfold buildPrefixedKeyOwning Config.buildPrefixedKey
  split
  · exact ⟨forall_mem_memcpy.mpr (.inr (by simp)), slice_put_memcpy _ key⟩
  · have read := slice_put_memcpy (fun _ => 0) (dtIdBytes dtId ++ key)
    rw [← memcpy_dtIdBytes, length_append] at read
    refine ⟨?_, read⟩
    unfold KeyBuffer.Inside
    rw [memcpy_dtIdBytes, forall_mem_memcpy]
    simp

end Builders

theorem length_buildPrefixedKey (cfg : Config) (key : Bytes) :
    (cfg.buildPrefixedKey key).length = cfg.prefixBytes + key.length := by
  unfold Config.buildPrefixedKey Config.prefixBytes
  split
  · simp
  · simp
    omega

theorem prefixBytes_le (cfg : Config) : cfg.prefixBytes ≤ 2 := by
  unfold Config.prefixBytes
  split <;> omega

/-- The length test of phase 2 compares the two keys' lengths: where the request's length
has wrapped around, it is below the two bytes of the tree id. -/
theorem lengths_agree (cfg : Config) {key pageKey : Bytes}
    (length : key.length < 2 ^ 16) (pageLength : pageKey.length < 2 ^ 16) :
    ¬ (UInt16.ofNat (cfg.buildPrefixedKey key).length < UInt16.ofNat cfg.prefixBytes ∨
      UInt16.ofNat pageKey.length ≠
        UInt16.ofNat (cfg.buildPrefixedKey key).length - UInt16.ofNat cfg.prefixBytes) ↔
    pageKey.length = key.length ∧ cfg.prefixBytes + key.length < 2 ^ 16 := by
  have few := prefixBytes_le cfg
  rw [length_buildPrefixedKey, not_or, UInt16.not_lt, ne_eq, not_not]
  constructor
  · rintro ⟨long, agree⟩
    rw [← UInt16.toNat_inj, UInt16.toNat_sub_of_le _ _ long] at agree
    rw [UInt16.le_iff_toNat_le] at long
    simp only [UInt16.toNat_ofNat'] at agree long
    omega
  · rintro ⟨agree, _⟩
    have long : UInt16.ofNat cfg.prefixBytes ≤
        UInt16.ofNat (cfg.prefixBytes + key.length) := by
      rw [UInt16.le_iff_toNat_le]
      simp only [UInt16.toNat_ofNat']
      omega
    refine ⟨long, ?_⟩
    rw [← UInt16.toNat_inj, UInt16.toNat_sub_of_le _ _ long]
    simp only [UInt16.toNat_ofNat']
    omega

theorem phase2Recheck_spec (cfg : Config) {key pageKey : Bytes}
    (length : key.length < 2 ^ 16) (pageLength : pageKey.length < 2 ^ 16) :
    (phase2Recheck cfg (cfg.buildPrefixedKey key) pageKey).1.Inside ∧
      ((phase2Recheck cfg (cfg.buildPrefixedKey key) pageKey).2 = true ↔
        pageKey = key ∧ key.length ≤ 256) := by
  have few := prefixBytes_le cfg
  have agree := lengths_agree cfg length pageLength
  have pageKeyLen : (UInt16.ofNat pageKey.length).toNat = pageKey.length := by
    simpa using pageLength
  unfold phase2Recheck
  dsimp only
  split
  · rename_i differ
    refine ⟨nofun, nofun, ?_⟩
    rintro ⟨rfl, short⟩
    exact absurd differ (agree.mpr ⟨rfl, by omega⟩)
  · rename_i passes
    obtain ⟨sameLength, -⟩ := agree.mp passes
    split
    · rename_i long
      rw [UInt16.lt_iff_toNat_lt, pageKeyLen, sameLength] at long
      refine ⟨nofun, nofun, fun same => absurd same.2 (not_le.mpr ?_)⟩
      simpa using long
    · rename_i short
      rw [UInt16.not_lt, UInt16.le_iff_toNat_le, pageKeyLen] at short
      have short : pageKey.length ≤ 256 := by simpa using short
      rw [pageKeyLen]
      refine ⟨forall_mem_memcpy.mpr (.inr (by simpa using short)), ?_⟩
      · rw [slice_put_memcpy, Config.drop_buildPrefixedKey, sameLength, take_length, beq_iff_eq]
        exact ⟨fun same => ⟨same, sameLength ▸ short⟩, And.left⟩

theorem phase2Recheck_dtId (cfg : Config) (dtId : UInt16) :
    phase2Recheck { cfg with dtId } = phase2Recheck cfg := rfl

def keyBuffers (config : Config) (assertions : Bool) (dtId : Int64) (key : Bytes)
    (stack : ByteMemory.Memory) : List KeyBuffer :=
  (tryLookupInRecordCache config assertions dtId key stack).toList ++
    (tryUpdateAndInvalidateRecordCache config assertions dtId key stack).toList ++
    [signalPromoteThread config dtId key, signalDirectUpdatePromote config dtId key]

/-- The key fits the stack buffer, or no buffer is used and nothing is asserted. -/
def KeyFits (cfg : Config) (assertions : Bool) (key : Bytes) : Prop :=
  2 + key.length ≤ 128 ∨ cfg.rcSkipDtIdPrefix = true ∧ assertions = false

theorem stackKey_safe {cfg : Config} {assertions : Bool} {key : Bytes} (dtId : Int64)
    (stack : ByteMemory.Memory) :
    (∃ buffer, stackKey cfg assertions dtId key stack = some buffer ∧ buffer.Inside) ↔
      KeyFits cfg assertions key := by
  simp only [stackKey, KeyFits]
  split
  · next stopped =>
    simp only [Bool.and_eq_true, Bool.not_eq_true', decide_eq_false_iff_not] at stopped
    simp [stopped.1, stopped.2]
  · next goes =>
    simp only [Option.some.injEq, exists_eq_left', buildPrefixedKey_inside]
    cases assertions <;> simp_all [or_comm]

section KeyBuffers

variable {config : Config} {assertions : Bool} {dtId : Int64} {key : Bytes}
  {stack : ByteMemory.Memory}

/-- All four calls return, and they write only inside their key buffers. -/
def Safe (config : Config) (assertions : Bool) (dtId : Int64) (key : Bytes)
    (stack : ByteMemory.Memory) : Prop :=
  (keyBuffers config assertions dtId key stack).length = 4 ∧
    ∀ buffer ∈ keyBuffers config assertions dtId key stack, buffer.Inside

theorem safe_iff : Safe config assertions dtId key stack ↔ KeyFits config assertions key := by
  have owned := (buildPrefixedKeyOwning_spec config (narrow dtId) key).1
  rw [← stackKey_safe dtId stack]
  unfold Safe keyBuffers tryLookupInRecordCache tryUpdateAndInvalidateRecordCache
    signalPromoteThread signalDirectUpdatePromote
  cases stackKey config assertions dtId key stack <;> simp [owned]

theorem key_of_mem_keyBuffers {buffer : KeyBuffer}
    (isBuffer : buffer ∈ keyBuffers config assertions dtId key stack) :
    buffer.key = { config with dtId := narrow dtId }.buildPrefixedKey key := by
  have owned := (buildPrefixedKeyOwning_spec config (narrow dtId) key).2
  have stacked : ∀ buffer ∈ stackKey config assertions dtId key stack,
      buffer.key = { config with dtId := narrow dtId }.buildPrefixedKey key := by
    rintro buffer isBuffer
    simp only [stackKey] at isBuffer
    split at isBuffer
    · cases isBuffer
    · cases isBuffer
      exact buildPrefixedKey_key ..
  simp only [keyBuffers, mem_append, Option.mem_toList, mem_cons, not_mem_nil, or_false] at isBuffer
  rcases isBuffer with (looked | updated) | rfl | rfl
  · exact stacked buffer looked
  · exact stacked buffer updated
  · exact owned
  · exact owned

end KeyBuffers

/-- The four calls write only inside their key buffers just if the key fits, and they build the
same bytes for the same tree and key; with the prefix on, another tree and key builds them just
if the keys are equal and the tree ids agree in 16 bits.  The promote thread accepts exactly the
requested key, up to the size of its own buffer. -/
theorem cache_keys_safe_and_injective (config : Config) (assertions : Bool)
    (stack stack' : ByteMemory.Memory) (dtId dtId' : Int64) (key key' : Bytes) :
    (Safe config assertions dtId key stack ↔ KeyFits config assertions key) ∧
      ∀ buffer ∈ keyBuffers config assertions dtId key stack,
        (∀ buffer' ∈ keyBuffers config assertions dtId' key' stack',
          (dtId = dtId' → key = key' → buffer.key = buffer'.key) ∧
          (config.rcSkipDtIdPrefix = false →
            ((buffer.key = buffer'.key → dtId = dtId' ∧ key = key') ↔
              (dtId ≠ dtId' → key = key' → dtId.toInt % 2 ^ 16 ≠ dtId'.toInt % 2 ^ 16)))) ∧
        ∀ pageKey : Bytes, key.length < 2 ^ 16 → pageKey.length < 2 ^ 16 →
          (phase2Recheck config buffer.key pageKey).1.Inside ∧
            ((phase2Recheck config buffer.key pageKey).2 = true ↔
              pageKey = key ∧ key.length ≤ 256) := by
  refine ⟨safe_iff, fun buffer isBuffer => ⟨fun buffer' isBuffer' => ?_, ?_⟩⟩
  · rw [key_of_mem_keyBuffers isBuffer, key_of_mem_keyBuffers isBuffer']
    refine ⟨?_, fun off => ?_⟩
    · rintro rfl rfl
      rfl
    · have same : dtIdBytes (narrow dtId) ++ key = dtIdBytes (narrow dtId') ++ key' ↔
          dtId.toInt % 2 ^ 16 = dtId'.toInt % 2 ^ 16 ∧ key = key' := by
        rw [← narrow_eq_iff]
        refine ⟨fun same => ?_, fun ⟨sameTree, sameKey⟩ => by rw [sameTree, sameKey]⟩
        obtain ⟨sameTree, sameKey⟩ := append_inj same (by simp only [length_dtIdBytes])
        exact ⟨dtIdBytes_injective sameTree, sameKey⟩
      rw [buildPrefixedKey_of_not_skip config _ off, buildPrefixedKey_of_not_skip config _ off,
        same]
      tauto
  · intro pageKey length pageLength
    rw [key_of_mem_keyBuffers isBuffer]
    have spec := phase2Recheck_spec { config with dtId := narrow dtId } length pageLength
    rw [phase2Recheck_dtId] at spec
    exact spec

def singleShard (rcSkipDtIdPrefix : Bool) : Config where
  hashBytes := fun _ => 0
  numOfShards := 1
  totalWorkersNumber := 1
  rcSkipDtIdPrefix := rcSkipDtIdPrefix
  dtId := 0
  slabOf := fun _ => 0

/-- A key of 127 bytes ends one byte past the stack buffer in a build without assertions, and
a tree id beyond 16 bits shares its keys with another tree. -/
theorem cache_keys_overflow_and_collide :
    (∃ buffer, tryLookupInRecordCache (singleShard false) false 1 (List.replicate 127 0)
        (fun _ => 0) = some buffer ∧ (128, 0) ∈ buffer.stores ∧ buffer.size = 128) ∧
      (signalPromoteThread (singleShard false) 1 [7]).key =
        (signalPromoteThread (singleShard false) 65537 [7]).key := by
  refine ⟨⟨_, rfl, ?_, rfl⟩, ?_⟩
  · decide
  · decide

end TieredStore.RecordCache.PrefixedKey
