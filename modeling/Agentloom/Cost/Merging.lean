import Agentloom.Cost.Catalog
import Mathlib.Data.List.Sort
import Mathlib.Data.List.TakeWhile

/-! Catalog documents, and an operator's document laid over the built-in one. A name that the operator
lists loses its built-in prices at once, also when the operator's own prices start later. -/

namespace Agentloom.Cost

open JsonText Store List

structure Listed (α : Type) extends Dated α where
  name : String

structure CatalogDoc where
  schemaVersion : Int
  models : List (Listed Rate)
  tools : List (Listed PlainFloat)
  fallback : Option Rate

def validateResourceName (name : String) : Bool :=
  let text := name.toList
  !text.isEmpty && !text.any [' ', '\t', '\r', '\n', '\x0b', '\x0c'].contains &&
    (!text.contains '*' || [':', '*'].isSuffixOf text && text.count '*' == 1)

def validateModelName (name : String) : Bool :=
  validateResourceName name && !"tool:".toList.isPrefixOf name.toList

def validateToolName (name : String) : Bool :=
  validateResourceName name && "tool:".toList.isPrefixOf name.toList && name != "tool:"

def validateRate (rate : Rate) : Bool :=
  !rate.inputPerMTok.val.negative && !rate.outputPerMTok.val.negative

/-- Every entry has a name, a date and a price, and no name has two prices from one date. -/
def validateEntries {α} (validateName : String → Bool) (validatePrice : α → Bool)
    (entries : List (Listed α)) : Bool :=
  (entries.all fun listed =>
      validateName listed.name && listed.effectiveFrom != 0 && validatePrice listed.entry) &&
    decide (entries.map fun listed => (listed.name, listed.effectiveFrom)).Nodup

namespace CatalogDoc

variable (doc : CatalogDoc)

def valid : Bool :=
  doc.schemaVersion == 1 && validateEntries validateModelName validateRate doc.models &&
    validateEntries validateToolName (!·.val.negative) doc.tools && doc.fallback.all validateRate

end CatalogDoc

def sortEntries {α} (entries : List (Listed α)) (name : String) : List (Dated α) :=
  ((entries.filter (·.name = name)).map Listed.toDated).insertionSort
    fun a b => b.effectiveFrom ≤ a.effectiveFrom

def CatalogDoc.catalog (doc : CatalogDoc) : Catalog :=
  { models := sortEntries doc.models, tools := sortEntries doc.tools, fallback := doc.fallback }

section Newest

variable {α : Type} {entries : List (Listed α)} {name : String} {now : Time}

def Effective (entries : List (Listed α)) (name : String) (now : Time) : Prop :=
  ∃ listed ∈ entries, listed.name = name ∧ listed.effectiveFrom ≤ now

def Newest (entries : List (Listed α)) (name : String) (now : Time) (price : α) : Prop :=
  ∃ listed ∈ entries, listed.name = name ∧ listed.effectiveFrom ≤ now ∧ listed.entry = price ∧
    ∀ other ∈ entries, other.name = name → other.effectiveFrom ≤ now →
      other.effectiveFrom ≤ listed.effectiveFrom

theorem mem_sortEntries {dated : Dated α} : dated ∈ sortEntries entries name ↔
      ∃ listed ∈ entries, listed.name = name ∧ listed.toDated = dated := by
  simp [sortEntries, and_assoc]

theorem selectEntry_isSome :
    (selectEntry (sortEntries entries name) now).isSome = true ↔ Effective entries name now := by
  simp only [selectEntry, Option.isSome_map, find?_isSome, mem_sortEntries, decide_eq_true_eq]
  constructor
  · rintro ⟨_, ⟨listed, mem, named, rfl⟩, begun⟩
    exact ⟨listed, mem, named, begun⟩
  · rintro ⟨listed, mem, named, begun⟩
    exact ⟨_, ⟨listed, mem, named, rfl⟩, begun⟩

theorem selectEntry_newest {price : α}
    (selected : selectEntry (sortEntries entries name) now = some price) :
    Newest entries name now price := by
  obtain ⟨dated, found, rfl⟩ := Option.map_eq_some_iff.mp selected
  obtain ⟨begun, newer, older, split, early⟩ := find?_eq_some_iff_append.mp found
  obtain ⟨listed, mem, named, rfl⟩ := mem_sortEntries.mp (mem_of_find?_eq_some found)
  refine ⟨listed, mem, named, by simpa using begun, rfl, fun other inside same started => ?_⟩
  have sorted : (sortEntries entries name).Pairwise fun a b => b.effectiveFrom ≤ a.effectiveFrom :=
    pairwise_insertionSort _ _
  have placed := mem_sortEntries.mpr ⟨other, inside, same, rfl⟩
  rw [split] at sorted placed
  rcases mem_append.mp placed with before | after
  · simpa [started] using early _ before
  · rcases mem_cons.mp after with here | behind
    · rw [← here]
    · exact (pairwise_cons.mp (pairwise_append.mp sorted).2.1).1 _ behind

end Newest

/-- A lookup finds the newest price in effect of the name itself, or else of its provider; the order
of the document plays no part. -/
structure Resolves (doc : CatalogDoc) (name : String) (now : Time) : Prop where
  lookup : match doc.catalog.lookup name now with
    | some (rate, .exact) => Newest doc.models name now rate
    | some (rate, .wildcard) => ¬ Effective doc.models name now ∧
        ∃ wildcard ∈ wildcardOf name, Newest doc.models wildcard now rate
    | some (_, .fallback) => False
    | none => ¬ Effective doc.models name now ∧
        ∀ wildcard ∈ wildcardOf name, ¬ Effective doc.models wildcard now
  toolPrice : match doc.catalog.toolPrice name now with
    | some nano => ∃ usd, Newest doc.tools name now usd ∧ nano = usdToNano usd
    | none => ¬ Effective doc.tools name now

theorem CatalogDoc.resolves (doc : CatalogDoc) (name : String) (now : Time) :
    Resolves doc name now := by
  have idle {α} {entries : List (Listed α)} {name}
      (none : selectEntry (sortEntries entries name) now = none) : ¬ Effective entries name now := by
    rw [← selectEntry_isSome, none]
    exact Bool.false_ne_true
  constructor
  · rw [Catalog.lookup, CatalogDoc.catalog]
    cases selected : selectEntry (sortEntries doc.models name) now with
    | some found => exact selectEntry_newest selected
    | none =>
      cases wild : wildcardOf name with
      | none => exact ⟨idle selected, by simp⟩
      | some wildcard =>
        cases chosen : selectEntry (sortEntries doc.models wildcard) now with
        | none => simpa [chosen] using ⟨idle selected, idle chosen⟩
        | some rate => simpa [chosen] using ⟨idle selected, selectEntry_newest chosen⟩
  · rw [Catalog.toolPrice, CatalogDoc.catalog]
    cases selected : selectEntry (sortEntries doc.tools name) now with
    | none => exact idle selected
    | some usd => exact ⟨usd, selectEntry_newest selected, rfl⟩

def overlay {α} (base override : String → List (Dated α)) (name : String) : List (Dated α) :=
  if override name matches [] then base name else override name

def merge (base override : Catalog) : Catalog where
  models := overlay base.models override.models
  tools := overlay base.tools override.tools
  fallback := override.fallback.or base.fallback

structure PricesKept (base merged : Catalog) (now : Time) : Prop where
  models : ∀ name, (base.lookup name now).isSome = true → (merged.lookup name now).isSome = true
  tools : ∀ name, (base.toolPrice name now).isSome = true → (merged.toolPrice name now).isSome = true

/-- One of the lists has a price in effect, and it is not a price of the base that the override's
entries for the name hide. -/
def Offers {α} (base override : List (Listed α)) (name : String) (now : Time) : Prop :=
  Effective override name now ∨ Effective base name now ∧ ∀ listed ∈ override, listed.name ≠ name

theorem selectEntry_overlay {α} {base override : List (Listed α)} :
    (selectEntry (overlay (sortEntries base) (sortEntries override) name) now).isSome = true ↔
      Offers base override name now := by
  unfold overlay Offers
  cases sorted : sortEntries override name with
  | nil =>
    have unlisted : ∀ listed ∈ override, listed.name ≠ name := fun listed mem named => by
      simpa [sorted] using mem_sortEntries.mpr ⟨listed, mem, named, rfl⟩
    rw [and_iff_left unlisted]
    refine selectEntry_isSome.trans (or_iff_right ?_).symm
    rintro ⟨listed, mem, named, _⟩
    exact unlisted listed mem named
  | cons first rest =>
    obtain ⟨listed, mem, named, _⟩ := mem_sortEntries.mp (sorted ▸ mem_cons_self)
    refine Iff.trans ?_ (or_iff_left fun hidden => hidden.2 listed mem named).symm
    rw [← selectEntry_isSome, sorted]
    rfl

/-- Each name whose base price is in effect is on offer, by itself or through its provider. -/
structure Unhidden (base override : CatalogDoc) (now : Time) : Prop where
  models : ∀ name, Effective base.models name now → Offers base.models override.models name now ∨
    ∃ wildcard ∈ wildcardOf name, Offers base.models override.models wildcard now
  tools : ∀ name, Effective base.tools name now → Offers base.tools override.tools name now

theorem lookup_isSome (catalog : Catalog) : (catalog.lookup name now).isSome = true ↔
      (selectEntry (catalog.models name) now).isSome = true ∨ ∃ wildcard ∈ wildcardOf name,
        (selectEntry (catalog.models wildcard) now).isSome = true := by
  unfold Catalog.lookup
  cases selectEntry (catalog.models name) now with
  | some => simp
  | none => cases wildcardOf name <;> simp

theorem wildcardOf_self (wild : wildcard ∈ wildcardOf name) :
    wildcardOf wildcard = some wildcard := by
  unfold wildcardOf at wild ⊢
  split_ifs at wild <;> cases wild
  have before : ∀ c ∈ name.toList.takeWhile (· ≠ ':'), decide (c ≠ ':') = true :=
    fun _ => mem_takeWhile_imp
  simp_all [String.toList_append, takeWhile_append_of_pos]

theorem prices_kept_iff (base override : CatalogDoc) (now : Time) :
    ((∀ doc name now, Resolves doc name now) ∧
      PricesKept base.catalog (merge base.catalog override.catalog) now) ↔
      Unhidden base override now := by
  rw [and_iff_right CatalogDoc.resolves]
  have priced : ∀ name, (base.catalog.lookup name now).isSome = true ↔
      Effective base.models name now ∨
        ∃ wildcard ∈ wildcardOf name, Effective base.models wildcard now := fun name => by
    simp only [lookup_isSome, CatalogDoc.catalog, selectEntry_isSome]
  have kept : ∀ name,
      ((merge base.catalog override.catalog).lookup name now).isSome = true ↔
      Offers base.models override.models name now ∨
        ∃ wildcard ∈ wildcardOf name, Offers base.models override.models wildcard now := fun name => by
    simp only [lookup_isSome, merge, CatalogDoc.catalog, selectEntry_overlay]
  have tools : ∀ name, ((base.catalog.toolPrice name now).isSome = true →
      ((merge base.catalog override.catalog).toolPrice name now).isSome = true) ↔
      (Effective base.tools name now → Offers base.tools override.tools name now) := fun name => by
    simp only [Catalog.toolPrice, Option.isSome_map, merge, CatalogDoc.catalog, selectEntry_isSome,
      selectEntry_overlay]
  constructor
  · intro prices
    refine ⟨fun name effective => (kept name).mp (prices.models name ?_),
      fun name => (tools name).mp (prices.tools name)⟩
    exact (priced name).mpr (.inl effective)
  · intro unhidden
    refine ⟨fun name isPriced => (kept name).mpr ?_, fun name => (tools name).mpr (unhidden.tools name)⟩
    rcases (priced name).mp isPriced with effective | ⟨wildcard, wild, effective⟩
    · exact unhidden.models name effective
    · -- A wildcard is its own wildcard, so it has to be on offer itself.
      refine .inr ⟨wildcard, wild, (unhidden.models wildcard effective).elim id ?_⟩
      rintro ⟨same, own, offers⟩
      cases (wildcardOf_self wild).symm.trans own
      exact offers

/-- The override reprices a model from time 2 on; at time 1 the model has no price left. -/
theorem prices_not_kept : ∃ base override : CatalogDoc, base.valid = true ∧ override.valid = true ∧
    ¬ PricesKept base.catalog (merge base.catalog override.catalog) 1 := by
  let priced (date : Time) : CatalogDoc :=
    ⟨1, [⟨⟨date, ⟨.zero, .zero⟩⟩, "mock:sim-1"⟩], [], none⟩
  refine ⟨priced 1, priced 2, by decide, by decide, fun kept => ?_⟩
  exact absurd (kept.models "mock:sim-1" (by decide)) (by decide)

end Agentloom.Cost
