import Bitplane.Document.KeyPath
import Bitplane.Document.Loose
import Bitplane.Revision.Document

/-! # Revision settings

A revision can be set up in layers: one that is built in, settings that are laid
over it, and words that replace single parts.
-/

namespace Bitplane.Revision

open Document

/-- The small form of a letter, as far as it can be part of a field's name: the Kelvin
sign is a capital too. -/
def smallLetter (c : Char) : Char := if c == '\u212a' then 'k' else c.toLower

/-- The settings that words give, under a mark such as `NAME` that their own names
follow behind an underscore. Letters count alike in either case. -/
def namedSettings (mark : String) (words : List (String × String)) : Settings :=
  let start := (mark.toList ++ ['_']).map smallLetter
  words.filterMap fun (name, word) =>
    let name := name.toList.map smallLetter
    if start.isPrefixOf name then
      some (String.ofList (name.drop start.length), ofWord word)
    else none

def ofSettings? (base : Revision) (layers : List Settings) : Option Revision :=
  ofDocument? .loose (layers.foldl withSettings base.document)

end Bitplane.Revision
