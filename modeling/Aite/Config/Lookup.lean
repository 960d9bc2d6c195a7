import Aite.Lib.BlockGrammar
import Aite.Strings

/-!
# Looking up a field of a config

A config is read as the tree of its statements. A field is looked up along a path of block
names: the first block with the next name is entered, and in the last one the first statement
without a block that starts with the name of the field gives the values.
-/

namespace Aite.Config

open BlockGrammar

/-- The values of a field in the block with these names, empty when it is not found. -/
def configLookup : Block Text → List Text → Text → List Text
  | .empty, _, _ => []
  | .simple tokens rest, [], field_name =>
    if tokens.head? = some field_name then tokens.tail else configLookup rest [] field_name
  | .nested _ _ rest, [], field_name => configLookup rest [] field_name
  | .simple _ rest, name :: names, field_name => configLookup rest (name :: names) field_name
  | .nested tokens child_block rest, name :: names, field_name =>
    if tokens.head? = some name then configLookup child_block names field_name
    else configLookup rest (name :: names) field_name

/-- The port in the server block, or -1 when there is not exactly one value. -/
def getPortNumber (config : Block Text) : ℤ :=
  match configLookup config [text "server"] (text "port") with
  | [value] => atoi value
  | _ => -1

end Aite.Config
