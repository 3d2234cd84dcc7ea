import BuildRules.Rule.Error
import BuildRules.Text.Blank
import BuildRules.Text.Cut

/-!
# Platforms

A platform is an opaque name, usually a triple such as `x86_64-unknown-linux-gnu`. It is written
bare or as a label, and a label names the platform after its last colon. Main statements: `ofName`
accepts exactly the names that are not empty and hold no blank character (`ofName_eq_ok_iff`).
-/

namespace BuildRules

structure Platform where
  text : String
  deriving DecidableEq

namespace Platform

/-! ## Order by text -/

instance : Ord Platform := ⟨compareOn Platform.text⟩

instance : Std.TransOrd Platform :=
  inferInstanceAs (Std.TransCmp (compareOn Platform.text))

instance : Std.LawfulEqOrd Platform where
  compare_self {a} := (Std.ReflCmp.compare_self : compare a.text a.text = .eq)
  eq_of_compare {a b} h := by
    have : a.text = b.text := Std.LawfulEqOrd.eq_of_compare h
    cases a; cases b; cases this; rfl

instance : ToString Platform := ⟨Platform.text⟩

/-! ## Reading -/

/-- Whether a text may name a platform: it is not empty and has no blank character. -/
def IsName (id : String) : Prop := id ≠ "" ∧ Text.anyBlank id = false

instance (id : String) : Decidable (IsName id) := inferInstanceAs (Decidable (_ ∧ _))

def ofName (id : String) : Except RuleError Platform :=
  if IsName id then .ok ⟨id⟩ else .error (.invalidPlatform id)

theorem ofName_eq_ok_iff {id : String} {p : Platform} :
    ofName id = .ok p ↔ IsName id ∧ p = ⟨id⟩ := by
  unfold ofName
  split <;> simp_all [eq_comm]

/-- The platform that a bare name or a label names. -/
def ofLabel (label : String) : Except RuleError Platform :=
  if Text.hasDoubleSlash label.toList then
    match Text.cutLast? ':' label with
    | some (_, name) => if name = "" then .error (.invalidPlatform label) else ofName name
    | none => .error (.invalidPlatform label)
  else ofName label

/-! ## Properties -/

/-- The architecture: the name up to its first dash. -/
def arch (p : Platform) : String := ((Text.cutFirst? '-' p.text).map (·.1)).getD p.text

/-- The platforms that compilers and build tools are shipped for, the best supported ones first. -/
def hostTools : List Platform :=
  [ ⟨"aarch64-apple-darwin"⟩,
    ⟨"aarch64-unknown-linux-gnu"⟩,
    ⟨"i686-pc-windows-gnu"⟩,
    ⟨"i686-pc-windows-msvc"⟩,
    ⟨"i686-unknown-linux-gnu"⟩,
    ⟨"x86_64-apple-darwin"⟩,
    ⟨"x86_64-pc-windows-gnu"⟩,
    ⟨"x86_64-pc-windows-msvc"⟩,
    ⟨"x86_64-unknown-linux-gnu"⟩,
    ⟨"aarch64-pc-windows-msvc"⟩,
    ⟨"aarch64-unknown-linux-musl"⟩,
    ⟨"arm-unknown-linux-gnueabi"⟩,
    ⟨"arm-unknown-linux-gnueabihf"⟩,
    ⟨"armv7-unknown-linux-gnueabihf"⟩,
    ⟨"loongarch64-unknown-linux-gnu"⟩,
    ⟨"loongarch64-unknown-linux-musl"⟩,
    ⟨"powerpc-unknown-linux-gnu"⟩,
    ⟨"powerpc64-unknown-linux-gnu"⟩,
    ⟨"powerpc64le-unknown-linux-gnu"⟩,
    ⟨"riscv64gc-unknown-linux-gnu"⟩,
    ⟨"riscv64gc-unknown-linux-musl"⟩,
    ⟨"s390x-unknown-linux-gnu"⟩,
    ⟨"x86_64-unknown-freebsd"⟩,
    ⟨"x86_64-unknown-illumos"⟩,
    ⟨"x86_64-unknown-linux-musl"⟩,
    ⟨"x86_64-unknown-netbsd"⟩ ]

def hasHostTools (p : Platform) : Bool := hostTools.contains p

end Platform

end BuildRules
