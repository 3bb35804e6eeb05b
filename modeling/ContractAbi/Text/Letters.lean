/-!
# Letters and numbers

A character is alphanumeric when it is a letter or a number in Unicode's sense: the ASCII
letters and digits, and above ASCII every character outside the blocks of punctuation, symbols,
combining marks, spaces and private use. Those blocks are listed by their ranges, with the
letters and numbers some of them hold (superscript digits, circled letters, number forms) left
out of the ranges.
-/

namespace ContractAbi.Text

/-- Ranges above ASCII that hold no letter or number. -/
def symbolRanges : List (Nat × Nat) :=
  [(0x80, 0xA9), (0xAB, 0xB1), (0xB4, 0xB4), (0xB6, 0xB8), (0xBB, 0xBB), (0xBF, 0xBF),
   (0xD7, 0xD7), (0xF7, 0xF7),
   (0x2C2, 0x2C5), (0x2D2, 0x2DF), (0x2E5, 0x2EB), (0x2ED, 0x2ED), (0x2EF, 0x36F),
   (0x375, 0x375), (0x37E, 0x37E), (0x384, 0x385), (0x387, 0x387),
   (0x482, 0x489), (0x55A, 0x55F), (0x589, 0x58A), (0x591, 0x5BD), (0x5BE, 0x5C7),
   (0x5F3, 0x5F4), (0x600, 0x60F), (0x61B, 0x61F), (0x64B, 0x65F), (0x66A, 0x66D),
   (0x6D4, 0x6D4), (0x6DD, 0x6ED), (0x964, 0x965), (0x970, 0x970), (0xE3F, 0xE3F),
   (0xE4F, 0xE4F), (0xE5A, 0xE5B),
   (0x1680, 0x1680), (0x16EB, 0x16ED), (0x1800, 0x180F),
   (0x2000, 0x206F), (0x207A, 0x207E), (0x208A, 0x208F), (0x20A0, 0x20FF),
   (0x2100, 0x2101), (0x2103, 0x2106), (0x2108, 0x2109), (0x2114, 0x2114), (0x2116, 0x2118),
   (0x211E, 0x2123), (0x2125, 0x2125), (0x2127, 0x2127), (0x2129, 0x2129), (0x212E, 0x212E),
   (0x213A, 0x213B), (0x2140, 0x2144), (0x214A, 0x214D), (0x214F, 0x214F),
   (0x218A, 0x245F), (0x249C, 0x24B5), (0x2500, 0x2775), (0x2794, 0x2BFF),
   (0x2E00, 0x2E2E), (0x2E30, 0x2E7F), (0x2FF0, 0x3004), (0x3008, 0x3020), (0x302A, 0x3030),
   (0x3036, 0x3037), (0x303D, 0x303F), (0x3099, 0x309C), (0x30A0, 0x30A0), (0x30FB, 0x30FB),
   (0xD800, 0xF8FF), (0xFE00, 0xFE6F), (0xFEFF, 0xFEFF), (0xFF01, 0xFF0F), (0xFF1A, 0xFF20),
   (0xFF3B, 0xFF40), (0xFF5B, 0xFF65), (0xFFE0, 0xFFFF),
   (0x1F000, 0x1F0FF), (0x1F10D, 0x1F12F), (0x1F14A, 0x1F14F), (0x1F16A, 0x1F16F),
   (0x1F18A, 0x1FBFF), (0xE0000, 0xE0FFF), (0xF0000, 0x10FFFF)]

def isAlphanumeric (c : Char) : Bool :=
  if c.toNat < 0x80 then c.isAlphanum
  else !(symbolRanges.any fun (lo, hi) => lo ≤ c.toNat && c.toNat ≤ hi)

end ContractAbi.Text
