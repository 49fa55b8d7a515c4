/-!
# Lines

The line of a byte of a text is one more than the number of line feeds ahead of it. A `LineMap`
holds these numbers for every byte, so that each is found at once.
-/

namespace BinaryXml.Markup

/-- For every byte of a text, and for its end, the number of line feeds ahead. -/
structure LineMap where
  /-- The numbers by offset. -/
  feeds : Array Nat

namespace LineMap

/-- Note the bytes of a character, ahead of which there are `feeds` line feeds. -/
def pushBytes (feeds : Nat) (bytes : Nat) (counts : Array Nat) : Array Nat :=
  bytes.repeat (·.push feeds) counts

def ofText (text : List Char) : LineMap :=
  let (counts, feeds) := text.foldl
    (fun (counts, feeds) c =>
      (pushBytes feeds c.utf8Size counts, if c = '\n' then feeds + 1 else feeds))
    (#[], 0)
  ⟨counts.push feeds⟩

/-- The line of the byte at an offset; every offset past the end is on the last line. -/
def line (lines : LineMap) (offset : Nat) : Nat :=
  1 + lines.feeds[min offset (lines.feeds.size - 1)]?.getD 0

end LineMap

end BinaryXml.Markup
