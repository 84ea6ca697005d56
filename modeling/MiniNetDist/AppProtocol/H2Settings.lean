import MiniNetDist.Library.Bytes

/-! The settings of `mini-app-protocol/src/http2_frames.c`. The writer keeps the values in a table of 16-bit words
before it writes them in 32 bits. -/

namespace MiniNetDist.AppProtocol.H2

open Library

def H2_MAX_FRAME_SIZE : BitVec 32 := 16384#32
def H2_DEFAULT_HEADER_TABLE_SIZE : BitVec 32 := 4096#32
def H2_DEFAULT_MAX_CONCURRENT_STREAMS : BitVec 32 := 16#32
def H2_DEFAULT_INITIAL_WINDOW_SIZE : BitVec 32 := 65535#32

@[ext]
structure H2Settings where
  headerTableSize : BitVec 32
  maxConcurrentStreams : BitVec 32
  initialWindowSize : BitVec 32
  maxFrameSize : BitVec 32
  maxHeaderListSize : BitVec 32
  enablePush : Bool
  deriving DecidableEq, Repr

def h2SettingsInit : H2Settings :=
  { headerTableSize := H2_DEFAULT_HEADER_TABLE_SIZE
    maxConcurrentStreams := H2_DEFAULT_MAX_CONCURRENT_STREAMS
    initialWindowSize := H2_DEFAULT_INITIAL_WINDOW_SIZE
    maxFrameSize := H2_MAX_FRAME_SIZE
    maxHeaderListSize := 0xFFFFFFFF#32
    enablePush := true }

/-- The table of identifiers and values; both are `uint16_t`. -/
def H2Settings.params (s : H2Settings) : List (BitVec 16 × BitVec 16) :=
  [(0x01#16, (s.headerTableSize &&& 0xFFFF#32).setWidth 16), (0x02#16, if s.enablePush then 1#16 else 0#16),
    (0x03#16, s.maxConcurrentStreams.setWidth 16), (0x04#16, s.initialWindowSize.setWidth 16),
    (0x05#16, s.maxFrameSize.setWidth 16), (0x06#16, s.maxHeaderListSize.setWidth 16)]

/-- The six bytes of a parameter. -/
def paramBytes (param : BitVec 16 × BitVec 16) : Bytes :=
  let value := param.2.setWidth 32
  [byteOf param.1 8, byteOf param.1 0, byteOf value 24, byteOf value 16, byteOf value 8, byteOf value 0]

/-- The payload written to a buffer of `bufSize` bytes; `none` stands for the result 0. -/
def h2SettingsBuild (s : H2Settings) (bufSize : Nat) : Option Bytes :=
  if bufSize < 36 then none else some (s.params.flatMap paramBytes)

/-- Store the value of a parameter; unknown ones are ignored. -/
def H2Settings.store (s : H2Settings) (id : BitVec 16) (value : BitVec 32) : H2Settings :=
  if id = 0x01#16 then { s with headerTableSize := value }
  else if id = 0x02#16 then { s with enablePush := value ≠ 0#32 }
  else if id = 0x03#16 then { s with maxConcurrentStreams := value }
  else if id = 0x04#16 then { s with initialWindowSize := value }
  else if id = 0x05#16 then { s with maxFrameSize := value }
  else if id = 0x06#16 then { s with maxHeaderListSize := value }
  else s

def storeParams : H2Settings → Bytes → H2Settings
  | s, i0 :: i1 :: b0 :: b1 :: b2 :: b3 :: rest =>
    storeParams (s.store (widen 16 i0 <<< 8 ||| widen 16 i1)
      (widen 32 b0 <<< 24 ||| widen 32 b1 <<< 16 ||| widen 32 b2 <<< 8 ||| widen 32 b3)) rest
  | s, _ => s

def h2SettingsParse (payload : Bytes) : Except Int H2Settings :=
  if payload.length % 6 ≠ 0 then .error (-1) else .ok (storeParams h2SettingsInit payload)

/-- A parameter is read back as it stands in the table. -/
theorem storeParams_paramBytes (s : H2Settings) (id value : BitVec 16) (rest : Bytes) :
    storeParams s (paramBytes (id, value) ++ rest) = storeParams (s.store id (value.setWidth 32)) rest := by
  simp only [paramBytes, List.cons_append, List.nil_append, storeParams, u16_bytes]
  rw [← joinBytes_four, joinBytes_bytes _ (BitVec.isLt _)]

theorem storeParams_flatMap (s : H2Settings) (params : List (BitVec 16 × BitVec 16)) :
    storeParams s (params.flatMap paramBytes) =
      params.foldl (fun s param => s.store param.1 (param.2.setWidth 32)) s := by
  induction params generalizing s with
  | nil => rfl
  | cons param rest ih => rw [List.flatMap_cons, storeParams_paramBytes, ih, List.foldl_cons]

/-- A value keeps to 16 bits exactly when it is below 2^16. -/
theorem setWidth_setWidth_eq_iff (value : BitVec 32) :
    (value.setWidth 16).setWidth 32 = value ↔ value.toNat < 65536 := by
  rw [← BitVec.toNat_inj, BitVec.toNat_setWidth, BitVec.toNat_setWidth]
  omega

/-- The settings that come back: all but the push flag cut to 16 bits. -/
theorem h2SettingsParse_params (s : H2Settings) : h2SettingsParse (s.params.flatMap paramBytes) = .ok
    { headerTableSize := (s.headerTableSize.setWidth 16).setWidth 32
      maxConcurrentStreams := (s.maxConcurrentStreams.setWidth 16).setWidth 32
      initialWindowSize := (s.initialWindowSize.setWidth 16).setWidth 32
      maxFrameSize := (s.maxFrameSize.setWidth 16).setWidth 32
      maxHeaderListSize := (s.maxHeaderListSize.setWidth 16).setWidth 32
      enablePush := s.enablePush } := by
  have masked : (s.headerTableSize &&& 0xFFFF#32).setWidth 16 = s.headerTableSize.setWidth 16 := by
    rw [BitVec.setWidth_and]
    exact BitVec.and_allOnes
  have push : decide ((if s.enablePush then 1#16 else 0#16).setWidth 32 ≠ 0#32) = s.enablePush := by
    cases s.enablePush <;> rfl
  have length : (s.params.flatMap paramBytes).length % 6 = 0 := by
    simp [H2Settings.params, paramBytes]
  rw [h2SettingsParse, if_neg (not_not_intro length), storeParams_flatMap, H2Settings.params, masked]
  simp only [List.foldl_cons, List.foldl_nil, H2Settings.store, push, BitVec.reduceEq, ↓reduceIte]

/-- The settings come back exactly when all values fit the table of 16-bit words. -/
theorem h2_settings_round_trip_iff (s : H2Settings) (bufSize : Nat) (room : 36 ≤ bufSize) :
    ∃ payload, h2SettingsBuild s bufSize = some payload ∧ (h2SettingsParse payload = .ok s ↔
      s.headerTableSize.toNat < 65536 ∧ s.maxConcurrentStreams.toNat < 65536 ∧ s.initialWindowSize.toNat < 65536 ∧
        s.maxFrameSize.toNat < 65536 ∧ s.maxHeaderListSize.toNat < 65536) := by
  refine ⟨s.params.flatMap paramBytes, if_neg (Nat.not_lt.mpr room), ?_⟩
  rw [h2SettingsParse_params, Except.ok.injEq, H2Settings.ext_iff]
  simp only [setWidth_setWidth_eq_iff, and_true]

theorem h2_settings_round_trip_small :
    ∃ payload, h2SettingsBuild ⟨4096#32, 100#32, 65535#32, 16384#32, 8192#32, false⟩ 36 = some payload ∧
      (h2SettingsParse payload = .ok ⟨4096#32, 100#32, 65535#32, 16384#32, 8192#32, false⟩ ↔
        (4096#32).toNat < 65536 ∧ (100#32).toNat < 65536 ∧ (65535#32).toNat < 65536 ∧ (16384#32).toNat < 65536 ∧
          (8192#32).toNat < 65536) :=
  h2_settings_round_trip_iff ⟨4096#32, 100#32, 65535#32, 16384#32, 8192#32, false⟩ 36 (by decide)

/-- The default settings do not come back: the limit of the header list is cut from 2^32 - 1 to 2^16 - 1. -/
theorem default_settings_cut :
    ∃ payload, h2SettingsBuild h2SettingsInit 36 = some payload ∧
      h2SettingsParse payload = .ok { h2SettingsInit with maxHeaderListSize := 0xFFFF#32 } ∧
      h2SettingsParse payload ≠ .ok h2SettingsInit := by
  refine ⟨_, rfl, by decide, by decide⟩

end MiniNetDist.AppProtocol.H2
