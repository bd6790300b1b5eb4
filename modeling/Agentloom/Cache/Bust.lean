import Agentloom.Dag.Definition
import Agentloom.Library.Glob
import Agentloom.Library.Setting

/-! Busting the cache by plugin: the glob that is scanned for, and the keys it may meet. -/

namespace Agentloom.Cache

open Glob Dag List

inductive Kind where
  | executor
  | tool
  | retriever
  | modelProvider
  | validator
deriving DecidableEq

instance : Named Kind where
  all := [.executor, .tool, .retriever, .modelProvider, .validator]
  text
    | .executor => "executor"
    | .tool => "tool"
    | .retriever => "retriever"
    | .modelProvider => "model_provider"
    | .validator => "validator"

def validName (name : String) : Bool :=
  name.utf8ByteSize ≤ 64 && match name.toList with
    | [] => false
    | c :: rest => c.isLower && rest.all fun c => c.isLower || c.isDigit || c == '_'

@[ext] structure Plugin where
  kind : Kind
  name : String
  valid : validName name

structure BustMatch where
  kind : Setting Kind
  name : String

def bustPattern (root : String) (m : BustMatch) : Except String String :=
  let base := globEscape root ++ ":v*"
  match m.kind with
  | .unset =>
    if m.name = "" then return base ++ ":*"
    else throw ("cache: bust match has a name " ++ quote m.name ++ " but no kind")
  | .other text => throw ("cache: bust match kind " ++ quote text ++ " is not a plugin kind")
  | .known kind =>
    if m.name = "" then return base ++ ":" ++ globEscape (Named.text kind) ++ ":*"
    else return base ++ ":" ++ globEscape (Named.text kind) ++ ":" ++ globEscape m.name ++ ":*"

def statsRedisKey (root : String) (p : Plugin) : String :=
  root ++ ":" ++ "stats" ++ ":" ++ Named.text p.kind ++ ":" ++ p.name

/-- The hex digits of a SHA-256 sum. -/
abbrev ContentKey := { key : String // ∀ c ∈ key.toList, c ∈ "0123456789abcdef".toList }

/-- The key of an entry stored while `version` was the key schema version. -/
def redisKey (root : String) (version : Int) (p : Plugin) (key : ContentKey) : String :=
  root ++ ":v" ++ version.repr ++ ":" ++ Named.text p.kind ++ ":" ++ p.name ++ ":" ++ key.val

theorem no_colon (free : ':' ∉ text.toList) : 58 ∉ bytes text := by
  intro mem
  obtain ⟨c, found, inside⟩ := mem_flatMap.mp mem
  have colon : c = ':' := eq_of_mem (by decide) inside
  exact free (colon ▸ found)

theorem version_no_colon (version : Int) : 58 ∉ bytes version.repr := by
  have digits : ∀ n : Nat, ':' ∉ n.repr.toList := by
    intro n mem
    rw [Nat.toList_repr] at mem
    exact absurd (Nat.isDigit_of_mem_toDigits (by decide) (by decide) mem) (by decide)
  apply no_colon
  cases version with
  | ofNat n => exact digits n
  | negSucc n => simpa [Int.repr] using digits n.succ

theorem kind_no_colon (kind : Kind) : 58 ∉ bytes (Named.text kind) := by
  cases kind <;> decide

theorem Plugin.name_no_colon (p : Plugin) : 58 ∉ bytes p.name := by
  apply no_colon
  have valid := p.valid
  intro mem
  cases spelled : p.name.toList with
  | nil => simp [spelled] at mem
  | cons c rest =>
    simp only [validName, spelled, Bool.and_eq_true, all_eq_true] at valid
    rw [spelled, mem_cons] at mem
    obtain rfl | later := mem
    · exact absurd valid.2.1 (by decide)
    · exact absurd (valid.2.2 _ later) (by decide)

theorem Plugin.name_ne_empty (p : Plugin) : p.name ≠ "" := by
  intro empty
  have valid := p.valid
  simp [validName, empty] at valid

/-- What follows the version mark is four segments, and only the colons between them. -/
theorem segments_unique {x y : List UInt8} {p q : Plugin} (version : Int) (key : ContentKey)
    (same : [58].intercalate [bytes version.repr, bytes (Named.text q.kind), bytes q.name, bytes key.val] =
      [58].intercalate [x, bytes (Named.text p.kind), bytes p.name, y]) : q = p := by
  have hex : 58 ∉ bytes key.val := no_colon fun mem => absurd (key.property _ mem) (by decide)
  have counted := congrArg (count 58) same
  simp only [intercalate, intersperse, flatten_cons, flatten_nil, count_append, count_nil,
    count_singleton_self, count_eq_zero.mpr (version_no_colon version),
    count_eq_zero.mpr (kind_no_colon _), count_eq_zero.mpr (Plugin.name_no_colon _),
    count_eq_zero.mpr hex] at counted
  have left : 58 ∉ x := count_eq_zero.mp (by omega)
  have right : 58 ∉ y := count_eq_zero.mp (by omega)
  have split := congrArg (splitOn 58) same
  rw [splitOn_intercalate 58
      (by simp [version_no_colon, kind_no_colon, Plugin.name_no_colon, hex]) (by simp),
    splitOn_intercalate 58 (by simp [left, kind_no_colon, Plugin.name_no_colon, right]) (by simp)] at split
  injection split with _ split
  injection split with kind split
  injection split with name
  exact Plugin.ext (Named.injective _ _ (bytes_injective kind)) (bytes_injective name)

theorem bustPattern_exact (root : String) (p : Plugin) :
    ∃ pattern, bustPattern root ⟨.known p.kind, p.name⟩ = .ok pattern ∧
      ∀ q : Plugin, (∀ version key, stringMatch pattern (redisKey root version q key) ↔ q = p) ∧
        ¬ stringMatch pattern (statsRedisKey root q) := by
  have pattern : globEscape root ++ ":v*" ++ ":" ++ globEscape (Named.text p.kind) ++ ":" ++
      globEscape p.name ++ ":*" = globEscape (root ++ ":v") ++ "*" ++
        globEscape (":" ++ Named.text p.kind ++ ":" ++ p.name ++ ":") ++ "*" := by
    have sep : globEscape ":" = ":" := by decide
    have mark : globEscape ":v" ++ "*" = ":v*" := by decide
    simp only [globEscape_append, sep, ← mark, String.append_assoc]
    rfl
  have colon : bytes ":" = [58] := by decide
  refine ⟨_, if_neg p.name_ne_empty, fun q => ⟨fun version key => ?_, ?_⟩⟩
  · rw [pattern, match_stars]
    constructor
    · rintro ⟨x, y, same⟩
      refine segments_unique (x := x) (y := y) version key ?_
      simpa [redisKey, colon, intercalate, intersperse] using same
    · rintro rfl
      refine ⟨bytes version.repr, bytes key.val, ?_⟩
      simp [redisKey]
  · rw [pattern, match_stars]
    rintro ⟨x, y, same⟩
    have mark : bytes ":v" = [58, 118] := by decide
    have stats : bytes "stats" = [115, 116, 97, 116, 115] := by decide
    simp [statsRedisKey, colon, mark, stats] at same

end Agentloom.Cache
