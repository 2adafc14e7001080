/-!
Where a lookup searches. A configuration is a set of five flags; as a number it
has one bit a flag, the first flag lowest.
-/

namespace Scoping

/-- Where one lookup searches. -/
structure LookupConfig where
  /-- The declarations of the scope itself. -/
  decls : Bool := false
  /-- What `use` and `import` bring into it. -/
  imports : Bool := false
  /-- The scopes around it, out to the nearest module, and the root. -/
  parents : Bool := false
  /-- Top-level modules by name. -/
  toplevel : Bool := false
  /-- Stop at the first level that yields a match. -/
  innermost : Bool := false
deriving DecidableEq, Inhabited

namespace LookupConfig

/-- All that ordinary lexical rules make visible. -/
def allVisible : LookupConfig where
  decls := true
  imports := true
  parents := true

/-- Every flag. -/
def all : LookupConfig := ⟨true, true, true, true, true⟩

/-- No flag. -/
def none : LookupConfig := {}

/-- The flags as a list, lowest bit first. -/
def flags (config : LookupConfig) : List Bool :=
  [config.decls, config.imports, config.parents, config.toplevel, config.innermost]

/-- The words the flags go by, lowest bit first. -/
def words : List String := ["DECLS", "IMPORT_AND_USE", "PARENTS", "TOPLEVEL", "INNERMOST"]

/-- The words of the flags that are set. -/
def setWords (config : LookupConfig) : List String :=
  ((words.zip config.flags).filter Prod.snd).map Prod.fst

/-- A configuration as a number. -/
def bits (config : LookupConfig) : Nat :=
  config.flags.foldr (fun flag rest => flag.toNat + 2 * rest) 0

/-- The configuration of a number; bits beyond the five flags are dropped. -/
def ofBits (bits : Nat) : LookupConfig where
  decls := bits.testBit 0
  imports := bits.testBit 1
  parents := bits.testBit 2
  toplevel := bits.testBit 3
  innermost := bits.testBit 4

/-- The configuration of a number that sets no bit beyond the five flags. -/
def ofBits? (bits : Nat) : Option LookupConfig :=
  if bits < 32 then some (ofBits bits) else .none

/-- Whether every flag of `part` is set in `config`. -/
def includes (config part : LookupConfig) : Bool :=
  (part.flags.zip config.flags).all fun (wanted, given) => !wanted || given

/-- The flags that are not set. -/
def complement (config : LookupConfig) : LookupConfig :=
  ⟨!config.decls, !config.imports, !config.parents, !config.toplevel, !config.innermost⟩

def isEmpty (config : LookupConfig) : Bool := config == none

def isAll (config : LookupConfig) : Bool := config == all

theorem bits_lt (config : LookupConfig) : config.bits < 32 := by
  obtain ⟨decls, imports, parents, toplevel, innermost⟩ := config
  cases decls <;> cases imports <;> cases parents <;> cases toplevel <;> cases innermost <;> decide

/-- A configuration is determined by its number. -/
theorem ofBits_bits (config : LookupConfig) : ofBits config.bits = config := by
  obtain ⟨decls, imports, parents, toplevel, innermost⟩ := config
  cases decls <;> cases imports <;> cases parents <;> cases toplevel <;> cases innermost <;> rfl

end LookupConfig

end Scoping
