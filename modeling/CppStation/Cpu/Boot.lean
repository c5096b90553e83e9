import CppStation.Cpu.Traffic

/-!
# The start-up (`setupSigAct`, `Bus::Bus`, `Bios::loadFromFile`)

The start-up ends in a machine or in the text that the program exits with.  Each
of its steps asks the host for something: the signal handler, the memory of RAM
and BIOS, OpenGL and the image file.  The answers are a parameter.  The image
file is read into a buffer and its size is ignored.
-/

namespace CppStation

open Fallible Map ByteMemory

/-- The outcome of opening the image file. -/
inductive Opened
  | file (bytes : List Byte)
  | failed (errno : Nat)

/-- What the host answers.  `biosMemory` is what is in the memory from `malloc`. -/
structure Host where
  handlerSet : Bool
  ramAllocated : Bool
  biosMemory : Option (Nat → Byte)
  gladLoaded : Bool
  opened : Opened
  strsignal : Nat → String
  strerror : Nat → String

/-- A computation that may end the program with a text. -/
abbrev Startup := Except String

/-- The fields of `Bios`. -/
structure Image where
  mIsValidImage : Bool
  mBuffer : Nat → Byte

namespace Image

/-- `Bios::Bios`. -/
def new (memory : Option (Nat → Byte)) : Startup Image :=
  match memory with
  | some garbage => .ok ⟨false, garbage⟩
  | none => .error "Not enough memory to read BIOS file"

/-- The image after the call, and what it returns. -/
def loadFromFile (strerror : Nat → String) (path : String) (opened : Opened) (image : Image) :
    Image × Except String Nat :=
  match opened with
  | .file bytes =>
    let bufferSize := bytes.length
    if bufferSize = biosSize then
      ({ mIsValidImage := true, mBuffer := fun i => bytes.getD i 0 }, .ok bufferSize)
    else
      (image, .ok bufferSize)
  | .failed errno =>
    if errno ≠ 0 then
      (image, .error (path ++ ": " ++ strerror errno))
    else
      (image, .error (path ++ " is not a valid bios image"))

end Image

/-- 11 is `SIGSEGV`. -/
def setupSigAct (host : Host) : Startup Unit :=
  if host.handlerSet then .ok ()
  else .error ("error setting signal handler for 11 (" ++ host.strsignal 11 ++ ")")

/-- `Ram::Ram`.  The memory is filled, so that what was in it does not matter. -/
def Ram.allocate (allocated : Bool) : Startup Ram :=
  if allocated then .ok Ram.new else .error "Not enough memory to allocate RAM buffer"

/-- `Renderer::init`, without its calls of OpenGL. -/
def Renderer.init (r : Renderer) (gladLoaded : Bool) : Startup Renderer :=
  if gladLoaded then .ok r else .error "Failed to initialize GLAD"

/-- `Gpu::Gpu`. -/
def Gpu.construct (gladLoaded : Bool) : Startup Gpu := do
  let r ← Renderer.new.init gladLoaded
  return { Gpu.new with mRenderer := r }

/-- `Bus::Bus`: the members in the order of their declaration, then the image.  On an error of
`loadFromFile`, `check` prints the text and exits. -/
def Bus.construct (host : Host) : Startup Bus := do
  let ram ← Ram.allocate host.ramAllocated
  let image ← Image.new host.biosMemory
  let gpu ← Gpu.construct host.gladLoaded
  let (image, res) := image.loadFromFile host.strerror "roms/SCPH1001.BIN" host.opened
  let _ ← res
  return { mRam := ram, mBios := ⟨image.mBuffer⟩, mDma := Dma.new, mGpu := gpu }

/-- The program up to the main loop. -/
def Machine.boot (host : Host) : Startup Machine := do
  setupSigAct host
  let bus ← Bus.construct host
  return ⟨Cpu.new, bus⟩

namespace Host

/-- The BIOS that is in the memory after the start-up. -/
def image (bytes : List Byte) (garbage : Nat → Byte) : Nat → Byte :=
  if bytes.length = biosSize then (bytes.getD · 0) else garbage

/-- The host refuses nothing and has the file. -/
structure Starts (host : Host) (bytes : List Byte) (garbage : Nat → Byte) : Prop where
  handler : host.handlerSet = true
  ram : host.ramAllocated = true
  memory : host.biosMemory = some garbage
  glad : host.gladLoaded = true
  file : host.opened = .file bytes

/-- The first refusal ends the start-up with this text. -/
inductive Refuses (host : Host) : String → Prop
  | handler : host.handlerSet = false →
      Refuses host ("error setting signal handler for 11 (" ++ host.strsignal 11 ++ ")")
  | ram : host.handlerSet = true → host.ramAllocated = false →
      Refuses host "Not enough memory to allocate RAM buffer"
  | memory : host.handlerSet = true → host.ramAllocated = true → host.biosMemory = none →
      Refuses host "Not enough memory to read BIOS file"
  | glad {garbage : Nat → Byte} : host.handlerSet = true → host.ramAllocated = true →
      host.biosMemory = some garbage → host.gladLoaded = false →
      Refuses host "Failed to initialize GLAD"
  | file {garbage : Nat → Byte} {errno : Nat} : host.handlerSet = true →
      host.ramAllocated = true → host.biosMemory = some garbage → host.gladLoaded = true →
      host.opened = .failed errno →
      Refuses host ("roms/SCPH1001.BIN" ++
        if errno ≠ 0 then ": " ++ host.strerror errno else " is not a valid bios image")

end Host

/-! ## Loads from the ROM -/

/-- Loads from the range of the BIOS compose the bytes `f`. -/
structure RomReads (b : Bus) (f : Nat → Byte) : Prop where
  load8 : ∀ addr k, (maskRegion addr).toNat = 0x1fc00000 + k → k + 1 ≤ biosSize →
    b.load8 addr = .ok (f k)
  load32 : ∀ addr k, (maskRegion addr).toNat = 0x1fc00000 + k → k + 4 ≤ biosSize →
    b.load32 addr = .ok (compose 32 4 fun i => f (k + i))

theorem bios_offset {addr : Word} {k : Nat} (haddr : (maskRegion addr).toNat = 0x1fc00000 + k)
    (hk : k < biosSize) :
    ¬ offsetIn (maskRegion addr) Map.mRam ≠ -1 ∧ offsetIn (maskRegion addr) Map.mBios ≠ -1 ∧
      (offsetIn (maskRegion addr) Map.mBios).toNat = k := by
  have hsel : offsetIn (maskRegion addr) Map.mBios ≠ -1 :=
    (bios_selected_iff _).mpr ⟨by omega, by omega⟩
  refine ⟨not_selected hsel, hsel, ?_⟩
  rw [bios_toNat_offset hsel]
  omega

theorem romReads (b : Bus) : RomReads b b.mBios.mBuffer where
  load8 addr k haddr hk := by
    obtain ⟨hram, hsel, hoff⟩ := bios_offset haddr hk
    simp only [Bus.load8, if_neg hram, if_pos hsel, hoff]
    exact if_pos hk
  load32 addr k haddr hk := by
    obtain ⟨hram, hsel, hoff⟩ := bios_offset haddr (by omega)
    simp only [Bus.load32, if_neg hram, if_pos hsel, hoff]
    exact bios_load32_of_inRange b.mBios hk

/-! ## The ROM over a run -/

namespace Machine

/-- **Run lemma**: nothing writes the BIOS. -/
theorem mBios_of_reachable {m m' : Machine} (h : Transition.Reachable Next m m') :
    m'.mBus.mBios = m.mBus.mBios :=
  h.invariant (P := fun s => s.mBus.mBios = m.mBus.mBios) rfl fun _ _ hs hnext =>
    (moves_next hnext).bios.trans hs

theorem boot_of_starts {host : Host} {bytes : List Byte} {garbage : Nat → Byte}
    (h : host.Starts bytes garbage) : boot host = .ok (reset ⟨Host.image bytes garbage⟩) := by
  simp only [boot, setupSigAct, Bus.construct, Ram.allocate, Image.new, Gpu.construct,
    Renderer.init, Image.loadFromFile, h.handler, h.ram, h.memory, h.glad, h.file, if_true,
    ok_bind, Host.image]
  by_cases hsize : bytes.length = biosSize
  · simp only [if_pos hsize, ok_bind]
    rfl
  · simp only [if_neg hsize, ok_bind]
    rfl

theorem boot_of_refuses {host : Host} {text : String} (h : host.Refuses text) :
    boot host = .error text := by
  cases h with
  | handler hhandler =>
    rw [boot, setupSigAct, hhandler]
    rfl
  | ram hhandler hram =>
    rw [boot, setupSigAct, hhandler, Bus.construct, hram]
    rfl
  | memory hhandler hram hmemory =>
    rw [boot, setupSigAct, hhandler, Bus.construct, hram, hmemory]
    rfl
  | glad hhandler hram hmemory hglad =>
    rw [boot, setupSigAct, hhandler, Bus.construct, hram, hmemory, hglad]
    rfl
  | @file garbage errno hhandler hram hmemory hglad hfile =>
    rw [boot, setupSigAct, hhandler, Bus.construct, hram, hmemory, hglad, hfile]
    by_cases herrno : errno ≠ 0
    · simp only [Image.loadFromFile, if_pos herrno]
      exact congrArg Except.error String.append_assoc
    · simp only [Image.loadFromFile, if_neg herrno]
      rfl

/-- The host starts the program or refuses something. -/
theorem starts_or_refuses (host : Host) :
    (∃ bytes garbage, host.Starts bytes garbage) ∨ ∃ text, host.Refuses text := by
  cases hhandler : host.handlerSet with
  | false => exact .inr ⟨_, .handler hhandler⟩
  | true =>
    cases hram : host.ramAllocated with
    | false => exact .inr ⟨_, .ram hhandler hram⟩
    | true =>
      cases hmemory : host.biosMemory with
      | none => exact .inr ⟨_, .memory hhandler hram hmemory⟩
      | some garbage =>
        cases hglad : host.gladLoaded with
        | false => exact .inr ⟨_, .glad hhandler hram hmemory hglad⟩
        | true =>
          cases hfile : host.opened with
          | failed errno => exact .inr ⟨_, .file hhandler hram hmemory hglad hfile⟩
          | file bytes => exact .inl ⟨bytes, garbage, hhandler, hram, hmemory, hglad, hfile⟩

/-- **The start-up succeeds** when the host refuses nothing. -/
theorem boot_eq_ok {host : Host} {m₀ : Machine} :
    boot host = .ok m₀ ↔
      ∃ bytes garbage, host.Starts bytes garbage ∧ m₀ = reset ⟨Host.image bytes garbage⟩ := by
  constructor
  · intro hboot
    rcases starts_or_refuses host with ⟨bytes, garbage, h⟩ | ⟨text, h⟩
    · exact ⟨bytes, garbage, h, Except.ok.inj (hboot.symm.trans (boot_of_starts h))⟩
    · cases hboot.symm.trans (boot_of_refuses h)
  · rintro ⟨bytes, garbage, h, rfl⟩
    exact boot_of_starts h

/-- It fails with the text of the first refusal. -/
theorem boot_eq_error {host : Host} {text : String} :
    boot host = .error text ↔ host.Refuses text := by
  refine ⟨fun hboot => ?_, boot_of_refuses⟩
  rcases starts_or_refuses host with ⟨bytes, garbage, h⟩ | ⟨text', h⟩
  · cases hboot.symm.trans (boot_of_starts h)
  · obtain rfl := Except.error.inj (hboot.symm.trans (boot_of_refuses h))
    exact h

/-- **The ROM is the file** if it has the size of the BIOS, and the memory from `malloc` if it has
any other size, in every state of every run; without the file there is no machine. -/
theorem boot_rom {host : Host} {m₀ m : Machine} (hboot : boot host = .ok m₀)
    (h : Transition.Reachable Next m₀ m) :
    ∃ bytes garbage, host.opened = .file bytes ∧ host.biosMemory = some garbage ∧
      RomReads m.mBus (if bytes.length = biosSize then (bytes.getD · 0) else garbage) := by
  obtain ⟨bytes, garbage, hstarts, rfl⟩ := boot_eq_ok.mp hboot
  have hrom := romReads m.mBus
  rw [mBios_of_reachable h] at hrom
  exact ⟨bytes, garbage, hstarts.file, hstarts.memory, hrom⟩

/-- A file of the right size, over other memory.  Its words are `addiu r4, r1, 0x2424`. -/
def countingHost : Host where
  handlerSet := true
  ramAllocated := true
  biosMemory := some fun _ => 0xff
  gladLoaded := true
  opened := .file (List.replicate biosSize 0x24)
  strsignal := fun _ => ""
  strerror := fun _ => ""

/-- The state after two instructions reads the file. -/
theorem boot_rom_file : ∃ m : Machine, m.mCpu.mIp = 2 ∧
    RomReads m.mBus ((List.replicate biosSize 0x24).getD · 0) := by
  have hsize : (List.replicate biosSize (0x24 : Byte)).length = biosSize := List.length_replicate
  have hstarts : countingHost.Starts (List.replicate biosSize 0x24) fun _ => 0xff :=
    ⟨rfl, rfl, rfl, rfl, rfl⟩
  have himage : Host.image (List.replicate biosSize 0x24) (fun _ => 0xff) =
      fun i => if i < biosSize then 0x24 else 0 := by
    rw [Host.image, if_pos hsize]
    funext i
    simp only [List.getD_eq_getElem?_getD, List.getElem?_replicate]
    split <;> rfl
  have hrun : okAnd ((reset ⟨fun i => if i < biosSize then 0x24 else 0⟩).run 0 2)
      (fun m => m.mCpu.mIp = 2) = true := by decide +kernel
  obtain ⟨m, hm, hip⟩ := exists_of_okAnd hrun
  have hboot := boot_of_starts hstarts
  rw [himage] at hboot
  have hreach := reachable_of_run (Transition.Reachable.refl _ _) hm
  obtain ⟨bytes, garbage, hbytes, -, hreads⟩ := boot_rom hboot hreach
  obtain rfl := Opened.file.inj hbytes
  rw [if_pos hsize] at hreads
  exact ⟨m, of_decide_eq_true hip, hreads⟩

end Machine

/-! ## Programs in the ROM -/

theorem compose_ofWords (ws : List Word) (k : Nat) :
    (compose 32 4 fun i => (Bios.ofWords ws).mBuffer (4 * k + i)) = ws.getD k 0 := by
  have hbytes : ∀ i < 4, (Bios.ofWords ws).mBuffer (4 * k + i) = byteOf (ws.getD k 0) i := by
    intro i hi
    have hquot : (4 * k + i) / 4 = k := by omega
    have hrem : (4 * k + i) % 4 = i := by omega
    simp only [Bios.ofWords, hquot, hrem]
  exact (compose_congr hbytes).trans (compose_byteOf (n := 4) _)

/-- The reset address is in KSEG1. -/
theorem maskRegion_reset {k : Nat} (hk : k < biosSize) :
    (maskRegion (0xbfc00000 + BitVec.ofNat 32 k)).toNat = 0x1fc00000 + k := by
  have haddr : (0xbfc00000 + BitVec.ofNat 32 k : Word).toNat = 0xbfc00000 + k := by
    rw [BitVec.toNat_add, BitVec.toNat_ofNat]
    change (0xbfc00000 + k % 2 ^ 32) % 2 ^ 32 = _
    unfold biosSize at hk
    omega
  have hregion : ((0xbfc00000 + BitVec.ofNat 32 k : Word) >>> 29).toNat = 5 := by
    rw [BitVec.toNat_ushiftRight, haddr, Nat.shiftRight_eq_div_pow]
    unfold biosSize at hk
    omega
  unfold maskRegion
  rw [hregion]
  refine (Bits.toNat_and_mask _ (k := 29) (by decide)).trans ?_
  rw [haddr]
  unfold biosSize at hk
  omega

/-- The words of an image are read from the reset address on. -/
theorem load32_ofWords {b : Bus} {ws : List Word} (hb : b.mBios = .ofWords ws) {k : Nat}
    (hk : 4 * k + 4 ≤ biosSize) :
    b.load32 (0xbfc00000 + BitVec.ofNat 32 (4 * k)) = .ok (ws.getD k 0) := by
  have hload := (romReads b).load32 _ _ (maskRegion_reset (k := 4 * k) (by omega)) hk
  rw [hb, compose_ofWords] at hload
  exact hload

end CppStation
