import TripleStore.Text.Cluster
import TripleStore.Text.ControlSequence

/-!
# Display width

How many columns a text takes in a table.  Control sequences take none.  What remains is seen as
clusters, and a cluster takes the columns of the first of its characters that takes any: wide East
Asian characters take two, control characters and combining marks none, all others one.
-/

namespace TripleStore

namespace Width

/-- Where the wide East Asian characters begin and end, in turn. -/
def wideBorders : List Nat := [
  0x1100, 0x1160, 0x231A, 0x231C, 0x2329, 0x232B, 0x23E9, 0x23ED, 0x23F0, 0x23F1, 0x23F3, 0x23F4,
  0x25FD, 0x25FF, 0x2614, 0x2616, 0x2648, 0x2654, 0x267F, 0x2680, 0x2693, 0x2694, 0x26A1, 0x26A2,
  0x26AA, 0x26AC, 0x26BD, 0x26BF, 0x26C4, 0x26C6, 0x26CE, 0x26CF, 0x26D4, 0x26D5, 0x26EA, 0x26EB,
  0x26F2, 0x26F4, 0x26F5, 0x26F6, 0x26FA, 0x26FB, 0x26FD, 0x26FE, 0x2705, 0x2706, 0x270A, 0x270C,
  0x2728, 0x2729, 0x274C, 0x274D, 0x274E, 0x274F, 0x2753, 0x2756, 0x2757, 0x2758, 0x2795, 0x2798,
  0x27B0, 0x27B1, 0x27BF, 0x27C0, 0x2B1B, 0x2B1D, 0x2B50, 0x2B51, 0x2B55, 0x2B56, 0x2E80, 0x2E9A,
  0x2E9B, 0x2EF4, 0x2F00, 0x2FD6, 0x2FF0, 0x303F, 0x3041, 0x3097, 0x3099, 0x3100, 0x3105, 0x3130,
  0x3131, 0x318F, 0x3190, 0x31E4, 0x31EF, 0x321F, 0x3220, 0x3248, 0x3250, 0x4DC0, 0x4E00, 0xA48D,
  0xA490, 0xA4C7, 0xA960, 0xA97D, 0xAC00, 0xD7A4, 0xF900, 0xFB00, 0xFE10, 0xFE1A, 0xFE30, 0xFE53,
  0xFE54, 0xFE67, 0xFE68, 0xFE6C, 0xFF01, 0xFF61, 0xFFE0, 0xFFE7, 0x16FE0, 0x16FE5, 0x16FF0,
  0x16FF2, 0x17000, 0x187F8, 0x18800, 0x18CD6, 0x18D00, 0x18D09, 0x1AFF0, 0x1AFF4, 0x1AFF5,
  0x1AFFC, 0x1AFFD, 0x1AFFF, 0x1B000, 0x1B123, 0x1B132, 0x1B133, 0x1B150, 0x1B153, 0x1B155,
  0x1B156, 0x1B164, 0x1B168, 0x1B170, 0x1B2FC, 0x1F004, 0x1F005, 0x1F0CF, 0x1F0D0, 0x1F18E,
  0x1F18F, 0x1F191, 0x1F19B, 0x1F200, 0x1F203, 0x1F210, 0x1F23C, 0x1F240, 0x1F249, 0x1F250,
  0x1F252, 0x1F260, 0x1F266, 0x1F300, 0x1F321, 0x1F32D, 0x1F336, 0x1F337, 0x1F37D, 0x1F37E,
  0x1F394, 0x1F3A0, 0x1F3CB, 0x1F3CF, 0x1F3D4, 0x1F3E0, 0x1F3F1, 0x1F3F4, 0x1F3F5, 0x1F3F8,
  0x1F43F, 0x1F440, 0x1F441, 0x1F442, 0x1F4FD, 0x1F4FF, 0x1F53E, 0x1F54B, 0x1F54F, 0x1F550,
  0x1F568, 0x1F57A, 0x1F57B, 0x1F595, 0x1F597, 0x1F5A4, 0x1F5A5, 0x1F5FB, 0x1F650, 0x1F680,
  0x1F6C6, 0x1F6CC, 0x1F6CD, 0x1F6D0, 0x1F6D3, 0x1F6D5, 0x1F6D8, 0x1F6DC, 0x1F6E0, 0x1F6EB,
  0x1F6ED, 0x1F6F4, 0x1F6FD, 0x1F7E0, 0x1F7EC, 0x1F7F0, 0x1F7F1, 0x1F90C, 0x1F93B, 0x1F93C,
  0x1F946, 0x1F947, 0x1FA00, 0x1FA70, 0x1FA7D, 0x1FA80, 0x1FA89, 0x1FA90, 0x1FABE, 0x1FABF,
  0x1FAC6, 0x1FACE, 0x1FADC, 0x1FAE0, 0x1FAE9, 0x1FAF0, 0x1FAF9, 0x20000, 0x2FFFE, 0x30000,
  0x3FFFE]

/-- Where the combining marks begin and end, in turn. -/
def combiningBorders : List Nat := [
  0x300, 0x370, 0x483, 0x48A, 0x7EB, 0x7F4, 0xC00, 0xC01, 0xC04, 0xC05, 0xCF3, 0xCF4, 0xD00,
  0xD02, 0x135D, 0x1360, 0x1A7F, 0x1A80, 0x1AB0, 0x1ACF, 0x1B6B, 0x1B74, 0x1DC0, 0x1E00, 0x20D0,
  0x20F1, 0x2CEF, 0x2CF2, 0x2DE0, 0x2E00, 0x3099, 0x309B, 0xA66F, 0xA673, 0xA674, 0xA67E, 0xA69E,
  0xA6A0, 0xA6F0, 0xA6F2, 0xA8E0, 0xA8F2, 0xFE20, 0xFE30, 0x101FD, 0x101FE, 0x10376, 0x1037B,
  0x10EAB, 0x10EAD, 0x10F46, 0x10F51, 0x10F82, 0x10F86, 0x11300, 0x11302, 0x1133B, 0x1133D,
  0x11366, 0x1136D, 0x11370, 0x11375, 0x16AF0, 0x16AF5, 0x1CF00, 0x1CF2E, 0x1CF30, 0x1CF47,
  0x1D165, 0x1D16A, 0x1D16D, 0x1D173, 0x1D17B, 0x1D183, 0x1D185, 0x1D18C, 0x1D1AA, 0x1D1AE,
  0x1D242, 0x1D245, 0x1E000, 0x1E007, 0x1E008, 0x1E019, 0x1E01B, 0x1E022, 0x1E023, 0x1E025,
  0x1E026, 0x1E02B, 0x1E08F, 0x1E090, 0x1E8D0, 0x1E8D7]

/-- Whether a character is never seen: controls, marks of direction and the like. -/
def isUnseen (c : Nat) : Bool :=
  c < 0x20 || (0x7F ≤ c && c ≤ 0x9F) || c == 0xAD || c == 0x70F || (0x180B ≤ c && c ≤ 0x180E)
    || (0x200B ≤ c && c ≤ 0x200F) || (0x2028 ≤ c && c ≤ 0x202E) || (0x206A ≤ c && c ≤ 0x206F)
    || c == 0xFEFF || (0xFFF9 ≤ c && c ≤ 0xFFFB) || c == 0xFFFE || c == 0xFFFF

/-- The columns of one character. -/
def ofScalar (c : Nat) : Nat :=
  if isUnseen c then 0
  else if c < 0x300 then 1
  else if withinBorders combiningBorders c then 0
  else if withinBorders wideBorders c then 2
  else 1

/-- The columns of a cluster: those of its first character that takes any. -/
def ofCluster : List Nat → Nat
  | [] => 0
  | c :: rest => if ofScalar c = 0 then ofCluster rest else ofScalar c

/-- The columns of code points that are shown as they are. -/
def ofScalars (t : List Nat) : Nat := ((clusters t).map ofCluster).foldr (· + ·) 0

end Width

/-- The columns that a text takes when it is shown. -/
def displayWidth (t : Text) : Nat := Width.ofScalars (Utf8.scalars (withoutSequences t))

end TripleStore
