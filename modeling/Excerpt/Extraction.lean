import Excerpt.Run
/-!
# Extraction

A source is laid out once and then asked for definitions. Both steps are logged.
-/
namespace Excerpt

namespace Listing

/-- What laying out a source leaves in the log. -/
def log (listing : Listing) : List LogEntry :=
  listing.boundaries.map .boundary ++ [.listed listing.tokens.length listing.lines.length]

def load (dialect : Dialect) (source : Text) : Run Listing := do
  let listing ← Run.ofExcept (ofSource dialect source)
  ⟨[], listing.log, .ok listing⟩

def extract (listing : Listing) (decorated : Bool) (target : Target) : Run Text := do
  let snippet ← Run.ofExcept (listing.snippet decorated target)
  Run.note (.extracted snippet)
  return snippet.text

end Listing

/-- The text of the definition that a target asks for, in a source. -/
def extract (dialect : Dialect) (source : Text) (decorated : Bool) (target : Target) :
    Run Text := do
  let listing ← Listing.load dialect source
  listing.extract decorated target

end Excerpt
