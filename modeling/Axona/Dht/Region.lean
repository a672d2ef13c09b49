import Axona.Pubsub.Envelope

/-! # Regions

The region a token names (`region-names.js`, `s2.js`): a system region, the animal of a major cell,
an old cell name, or a code in hex or decimal. Every cell that is not major folds into one that is;
the fold is by great-circle distance and the old names are a table, and both are parameters. -/

namespace Axona

/-- `S2_CELL_COUNT` -/
def s2CellCount : Nat := 192

/-- `isValidCellId` -/
def isValidCellId (c : Nat) : Bool := c < s2CellCount

/-- `isSystemRegion` -/
def isSystemRegion (c : Nat) : Bool := c == systemRegionBridge

/-- `SYSTEM_REGION_NAMES` at the one system region. -/
def systemRegionName : Text := "bridge".toList

/-- `MAJORS`: the populous cells and their animals. -/
def majors : List (Nat × String) :=
  [(0x07, "macaw"), (0x0c, "canary"), (0x0d, "lynx"), (0x0e, "fennec"), (0x0f, "chimpanzee"),
   (0x10, "hornbill"), (0x11, "oryx"), (0x12, "addax"), (0x13, "gecko"), (0x14, "ibis"),
   (0x15, "jerboa"), (0x16, "gelada"), (0x17, "gorilla"), (0x18, "zebra"), (0x19, "sable"),
   (0x1a, "bonobo"), (0x1b, "roan"), (0x1c, "meerkat"), (0x1e, "kudu"), (0x20, "lemur"),
   (0x26, "dodo"), (0x27, "fossa"), (0x28, "dikdik"), (0x2a, "gazelle"), (0x2b, "urial"),
   (0x2c, "chinkara"), (0x2d, "kiang"), (0x2e, "gaur"), (0x30, "tapir"), (0x31, "gibbon"),
   (0x32, "takin"), (0x33, "panda"), (0x34, "egret"), (0x35, "goral"), (0x36, "tarsier"),
   (0x37, "orangutan"), (0x38, "cuscus"), (0x39, "komodo"), (0x3a, "colugo"), (0x3e, "quokka"),
   (0x3f, "dingo"), (0x40, "leopard"), (0x41, "brownbear"), (0x42, "saiga"), (0x43, "ermine"),
   (0x44, "reindeer"), (0x46, "moose"), (0x47, "boar"), (0x48, "badger"), (0x4c, "caribou"),
   (0x4d, "loon"), (0x52, "elk"), (0x53, "cougar"), (0x56, "puffin"), (0x59, "salmon"),
   (0x5b, "wolverine"), (0x5c, "muskdeer"), (0x5d, "argali"), (0x5e, "sika"), (0x5f, "tanuki"),
   (0x60, "serow"), (0x6c, "seaturtle"), (0x78, "kiwi"), (0x7d, "cassowary"), (0x7e, "wombat"),
   (0x7f, "koala"), (0x80, "grizzly"), (0x81, "coyote"), (0x84, "iguana"), (0x86, "armadillo"),
   (0x87, "bison"), (0x88, "alligator"), (0x89, "eagle"), (0x8c, "toucan"), (0x8d, "anteater"),
   (0x8e, "ocelot"), (0x8f, "coati"), (0x91, "llama"), (0x92, "jaguar"), (0x93, "capybara"),
   (0x94, "rhea"), (0x95, "puma"), (0x96, "guanaco"), (0xaa, "penguin")]

/-- Is the cell major? -/
def isMajor (c : Nat) : Bool := majors.any (·.1 == c)

/-- What the region table takes from outside: the old names and the fold. -/
structure Regions where
  /-- `LEGACY_CELL_NAMES`: the cell an old name stands for. -/
  legacy : Text → Option Nat
  /-- `CANONICAL_CODE`: the major cell a cell folds into. -/
  canonical : Nat → Nat
  /-- An old name stands for a cell. -/
  legacy_cell : ∀ t c, legacy t = some c → isValidCellId c
  /-- A fold ends in a major cell. -/
  canonical_major : ∀ c, isMajor (canonical c)
  /-- A major cell folds into itself. -/
  canonical_self : ∀ c, isMajor c → canonical c = c

/-- `t.toLowerCase()`, as far as it bears on names: the Kelvin sign is the one character outside
ASCII whose lower case is a plain letter. -/
def lowerName (t : Text) : Text := t.map fun c => if c == '\u212a' then 'k' else c.toLower

/-- `t.trim()` -/
def trim (t : Text) : Text := ((t.dropWhile isSpace).reverse.dropWhile isSpace).reverse

/-- The number that digits of either base stand for, `none` where there are none or one is not of
the base. -/
def readDigits (b : Nat) (t : Text) : Option Nat :=
  if t.isEmpty then none
  else t.foldl (fun n c => n.bind fun n => (hexDigit? c).bind fun d =>
    if d < b then some (b * n + d) else none) (some 0)

/-- A code written in hex behind `0x`, or in decimal. -/
def readCode : Text → Option Nat
  | '0' :: 'x' :: t | '0' :: 'X' :: t => readDigits 16 t
  | t => readDigits 10 t

namespace Regions

/-- `NAME_TO_CODE`: the animals first, then the old names, folded. -/
def nameToCode (R : Regions) (t : Text) : Option Nat :=
  ((majors.find? (·.2.toList == t)).map (·.1)).or ((R.legacy t).map R.canonical)

/-- `_rawResolve`: the code of a token, not folded. -/
def rawResolve (R : Regions) (token : Text) : Option Nat :=
  let t := trim token
  if lowerName t == systemRegionName then some systemRegionBridge
  else (R.nameToCode (lowerName t)).or
    ((readCode t).filter fun n => isValidCellId n || isSystemRegion n)

/-- `resolveRegion`, which is `canonicalRegion`. -/
def resolveRegion (R : Regions) (token : Text) : Option Nat :=
  (R.rawResolve token).map fun c => if isSystemRegion c then c else R.canonical c

/-- `canonicalRegion`, of a code. -/
def canonicalRegion (R : Regions) (code : Nat) : Option Nat :=
  if isValidCellId code || isSystemRegion code then
    some (if isSystemRegion code then code else R.canonical code)
  else none

/-- `regionName` -/
def regionName (R : Regions) (code : Nat) : Option Text :=
  if isSystemRegion code then some systemRegionName
  else if isValidCellId code then (majors.find? (·.1 == R.canonical code)).map (·.2.toList)
  else none

/-! ### What a token resolves to -/

theorem lt_of_isMajor {c : Nat} (h : isMajor c) : c < s2CellCount := by
  have hall : majors.all (·.1 < s2CellCount) := by decide
  obtain ⟨m, hm, hc⟩ := List.any_eq_true.mp h
  rw [← beq_iff_eq.mp hc]
  exact of_decide_eq_true (List.all_eq_true.mp hall m hm)

variable {R : Regions}

/-- A token resolves to a major cell or to the system region: a byte. -/
theorem resolveRegion_lt {token : Text} {c : Nat} (h : R.resolveRegion token = some c) :
    c < 256 := by
  obtain ⟨raw, -, rfl⟩ := Option.map_eq_some_iff.mp h
  split
  next hsys =>
    rw [beq_iff_eq.mp hsys]
    decide
  next => exact Nat.lt_trans (lt_of_isMajor (R.canonical_major raw)) (by decide)

/-- What a code folds into folds into itself. -/
theorem canonicalRegion_fold (R : Regions) (code : Nat) :
    R.canonicalRegion (if isSystemRegion code then code else R.canonical code) =
      some (if isSystemRegion code then code else R.canonical code) := by
  unfold canonicalRegion
  by_cases hsys : isSystemRegion code
  · rw [if_pos hsys, if_pos (by rw [hsys, Bool.or_true]), if_pos hsys]
  have hmajor := R.canonical_major code
  have hcell : isValidCellId (R.canonical code) := decide_eq_true (lt_of_isMajor hmajor)
  rw [if_neg hsys, if_pos (by rw [hcell, Bool.true_or]), R.canonical_self _ hmajor, ite_self]

theorem canonicalRegion_idem {code c : Nat} (h : R.canonicalRegion code = some c) :
    R.canonicalRegion c = some c := by
  rw [canonicalRegion] at h
  split at h
  · cases h
    exact R.canonicalRegion_fold code
  · cases h

theorem canonicalRegion_of_resolve {token : Text} {c : Nat} (h : R.resolveRegion token = some c) :
    R.canonicalRegion c = some c := by
  obtain ⟨raw, -, rfl⟩ := Option.map_eq_some_iff.mp h
  exact R.canonicalRegion_fold raw

/-- The animals are names of their cells whatever the tables outside hold. -/
theorem nameToCode_animal {t : Text} {m : Nat × String}
    (h : majors.find? (·.2.toList == t) = some m) : R.nameToCode t = some m.1 := by
  rw [nameToCode, h]
  rfl

theorem resolveRegion_penguin (R : Regions) : R.resolveRegion "penguin".toList = some 0xaa := by
  have hname : R.nameToCode (lowerName (trim "penguin".toList)) = some 0xaa :=
    nameToCode_animal (m := (0xaa, "penguin")) (by decide +kernel)
  have hsys : (lowerName (trim "penguin".toList) == systemRegionName) = false := by decide +kernel
  rw [resolveRegion, rawResolve, hsys, hname]
  exact congrArg some (R.canonical_self 0xaa (by decide))

end Regions

end Axona
