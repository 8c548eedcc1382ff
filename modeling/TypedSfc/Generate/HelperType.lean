/-!
# Helper types

Types that a generated file declares at its end, each only if the file uses it, and after the ones it needs itself.
-/

namespace TypedSfc

/-- A type that the generated file may declare for its own use. -/
inductive HelperType where
  | prettifyLocal
  | withDefaults
  | withSlots
  | typePropsToOption
  | omitIndexSignature
  deriving DecidableEq, Repr, Inhabited

namespace HelperType

/-- The name of a type. -/
def name : HelperType → String
  | prettifyLocal => "__VLS_PrettifyLocal"
  | withDefaults => "__VLS_WithDefaults"
  | withSlots => "__VLS_WithSlots"
  | typePropsToOption => "__VLS_TypePropsToOption"
  | omitIndexSignature => "__VLS_OmitIndexSignature"

/-- The types that the declaration of a type names. -/
def needs : HelperType → List HelperType
  | withDefaults => [prettifyLocal]
  | _ => []

/-- The declaration of a type; `lib` is the module that the component library is imported from. -/
def declaration (lib : String) : HelperType → String
  | prettifyLocal =>
    "type __VLS_PrettifyLocal<T> = (T extends any ? \x7b [K in keyof T]: T[K]; \x7d : \x7b [K in keyof T as K]: T[K]; \x7d) & \x7b\x7d;\n"
  | withDefaults =>
    "type __VLS_WithDefaults<P, D> = \x7b\n" ++
    "\t[K in keyof Pick<P, keyof P>]: K extends keyof D\n" ++
    "\t\t? __VLS_PrettifyLocal<P[K] & \x7b default: D[K] \x7d>\n" ++
    "\t\t: P[K]\n" ++
    "\x7d;\n"
  | withSlots =>
    "type __VLS_WithSlots<T, S> = T & \x7b\n" ++
    "\tnew(): \x7b\n" ++
    "\t\t$slots: S;\n" ++
    "\t\x7d\n" ++
    "\x7d;\n"
  | typePropsToOption =>
    "type __VLS_TypePropsToOption<T> = \x7b\n" ++
    "\t[K in keyof T]-?: \x7b\x7d extends Pick<T, K>\n" ++
    "\t\t? \x7b type: import(\"" ++ lib ++ "\").PropType<Required<T>[K]> \x7d\n" ++
    "\t\t: \x7b type: import(\"" ++ lib ++ "\").PropType<T[K]>, required: true \x7d\n" ++
    "\x7d;\n"
  | omitIndexSignature =>
    "type __VLS_OmitIndexSignature<T> = \x7b [K in keyof T as \x7b\x7d extends Record<K, unknown> ? never : K]: T[K]; \x7d;\n"

/-- Adds a type to those in use, unless it is there. -/
def insert (t : HelperType) (used : List HelperType) : List HelperType :=
  if used.contains t then used else used ++ [t]

/-- Marks a type as used, after the ones that its declaration names. -/
def use (t : HelperType) (used : List HelperType) : List HelperType :=
  t.insert (t.needs.foldl (fun used d => d.insert used) used)

/-- The declarations of the types in use. -/
def declarations (lib : String) (used : List HelperType) : String :=
  String.join (used.map (declaration lib))

end HelperType

end TypedSfc
