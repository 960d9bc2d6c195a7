import Aite.Config.Lookup
import Aite.Lib.BlockPath

/-!
# Which field is found

The lookup of a field enters the first block of each name and never comes back. So it finds a
field in the blocks that are the first ones of their names. A field that only another block of
one of the names has is not found, although there is a path to it.
-/

namespace Aite.Config

open BlockGrammar

/-- The lookup gives the values of the first field to which the path leads, and none only when
there is no such field. -/
def FindsField (config : Block Text) (block_names : List Text) (field_name : Text) : Prop :=
  configLookup config block_names field_name =
    match config.fieldsAt block_names field_name with
    | [] => []
    | values :: _ => values

instance (config : Block Text) (block_names : List Text) (field_name : Text) :
    Decidable (FindsField config block_names field_name) := inferInstanceAs (Decidable (_ = _))

/-- In a block itself, the first field is looked up. -/
private theorem configLookup_nil (config : Block Text) (field_name : Text) :
    configLookup config [] field_name = (config.fields field_name).head?.getD [] := by
  induction config with
  | empty => rfl
  | simple tokens rest ih =>
    rw [configLookup, Block.fields]
    split_ifs
    · rfl
    · exact ih
  | nested tokens body rest _ ih => exact ih

/-- Along a path, the first block of the first name is entered. -/
private theorem configLookup_cons (config : Block Text) (name : Text) (names : List Text)
    (field_name : Text) :
    configLookup config (name :: names) field_name =
      ((config.children name).head?.map
        fun child => configLookup child names field_name).getD [] := by
  induction config with
  | empty => rfl
  | simple tokens rest ih => exact ih
  | nested tokens body rest _ ih =>
    rw [configLookup, Block.children]
    split_ifs
    · rfl
    · exact ih

/-- The lookup gives the first field of the block to which the first blocks lead. -/
theorem configLookup_eq (config : Block Text) (block_names : List Text) (field_name : Text) :
    configLookup config block_names field_name =
      ((config.firstAt block_names).bind fun block => (block.fields field_name).head?).getD [] := by
  induction block_names generalizing config with
  | nil => exact configLookup_nil config field_name
  | cons name names ih =>
    rw [configLookup_cons, Block.firstAt]
    cases (config.children name).head? with
    | none => rfl
    | some child => exact ih child

/-- A field is found exactly when the first blocks lead to one of its name, or there is none on
any path, or the first one there is has no values. -/
theorem findsField_iff (config : Block Text) (block_names : List Text) (field_name : Text) :
    FindsField config block_names field_name ↔
      (∃ block, config.firstAt block_names = some block ∧ block.fields field_name ≠ []) ∨
        (∀ block, Block.Leads block_names config block → block.fields field_name = []) ∨
        (config.fieldsAt block_names field_name).head? = some [] := by
  rw [← Block.fieldsAt_eq_nil_iff, FindsField, configLookup_eq]
  by_cases hfirst : ∃ block, config.firstAt block_names = some block ∧ block.fields field_name ≠ []
  · obtain ⟨block, hblock, hfield⟩ := hfirst
    have hhead := Block.head?_fieldsAt hblock hfield
    obtain ⟨values, others, hvalues⟩ := List.exists_cons_of_ne_nil hfield
    rw [hvalues, List.head?_cons, List.head?_eq_some_iff] at hhead
    obtain ⟨more, hmore⟩ := hhead
    refine iff_of_true ?_ (.inl ⟨block, hblock, hfield⟩)
    rw [hmore, hblock, Option.bind_some, hvalues]
    rfl
  · rw [or_iff_right hfirst]
    have hnone : (config.firstAt block_names).bind
        (fun block => (block.fields field_name).head?) = none := by
      rw [Option.bind_eq_none_iff]
      intro block hblock
      rw [List.head?_eq_none_iff]
      by_contra hfield
      exact hfirst ⟨block, hblock, hfield⟩
    rw [hnone]
    cases config.fieldsAt block_names field_name with
    | nil => exact iff_of_true rfl (.inl rfl)
    | cons values others =>
      rw [List.head?_cons, Option.some_inj, eq_comm]
      exact (or_iff_right (List.cons_ne_nil values others)).symm

/-- A config whose second server block has the port. -/
def secondServer : Block Text :=
  .nested [text "server"] .empty
    (.nested [text "server"] (.simple [text "port", text "80"] .empty) .empty)

/-- The port of a second server block is reported as missing. -/
theorem not_findsField_secondServer :
    getPortNumber secondServer = -1 ∧
      ¬ ∀ (config : Block Text) (block_names : List Text) (field_name : Text),
        FindsField config block_names field_name := by
  refine ⟨by decide, fun h => ?_⟩
  exact absurd (h secondServer [text "server"] (text "port")) (by decide)

end Aite.Config
