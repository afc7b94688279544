import TapeCompiler.Text.CharClass

set_option maxRecDepth 8000

namespace TapeCompiler.Text

def blanks : CharClass where
  boundaries := [
    9, 14, 28, 33, 133, 134, 160, 161, 5760, 5761, 8192, 8203, 8232, 8234, 8239, 8240, 8287,
    8288, 12288, 12289]

def isBlank (c : Char) : Bool := blanks.contains c

end TapeCompiler.Text
