/-!
# Upper case

The full upper-case mapping of a character, which may have more than one character
(`ß` becomes `SS`). A character without a mapping stays as it is.
-/

namespace Componentry.Text

/-- Letters beyond ASCII, each followed by its upper case. -/
def upperPairs : String :=
  "µΜÿŸıIĳĲĵĴķĶźŹżŻžŽſSƀɃƃƂƅƄƈƇƌƋƒƑƕǶƙƘƚȽƞȠơƠƣƢƥƤƨƧƭƬưƯƴƳƶƵƹƸƽƼƿǷǅǄǆǄǈǇǉǇǋǊǌǊǝƎǲǱǳǱǵǴȼȻȿⱾ" ++
    "ɀⱿɂɁɐⱯɑⱭɒⱰɓƁɔƆɖƉɗƊəƏɛƐɜꞫɠƓɡꞬɣƔɥꞍɦꞪɨƗɩƖɪꞮɫⱢɬꞭɯƜɱⱮɲƝɵƟɽⱤʀƦʂꟅʃƩʇꞱʈƮʉɄʊƱʋƲʌɅʒƷʝꞲʞꞰͱͰͳͲͷͶͻϽ" ++
    "ͼϾͽϿάΆέΈήΉίΊςΣόΌύΎώΏϐΒϑΘϕΦϖΠϗϏϰΚϱΡϲϹϳͿϵΕϸϷϻϺӏӀჽᲽჾᲾჿᲿᲀВᲁДᲂОᲃСᲄТᲅТᲆЪᲇѢᲈꙊᵹꝽᵽⱣᶎꟆẛṠὑὙὓὛὕὝὗὟ" ++
    "ᾰᾸᾱᾹῐῘῑῙῠῨῡῩῥῬⅎℲↄↃⱡⱠⱥȺⱦȾⱨⱧⱪⱩⱬⱫⱳⱲⱶⱵⳬⳫⳮⳭⳳⳲⴧჇⴭჍꝺꝹꝼꝻꞌꞋꞑꞐꞓꞒꞔꟄꟈꟇꟊꟉꟶꟵꭓꞳ𐖻𐖔𐖼𐖕"

/-- Runs of characters beyond ASCII that map to one character each: first, last, stride, and the
upper case of the first. -/
def upperRuns : List (Nat × Nat × Nat × Nat) :=
  [(0xE0, 0xF6, 1, 0xC0), (0xF8, 0xFE, 1, 0xD8), (0x101, 0x12F, 2, 0x100),
    (0x13A, 0x148, 2, 0x139), (0x14B, 0x177, 2, 0x14A), (0x19B, 0x19B, 1, 0xA7DC),
    (0x1CE, 0x1DC, 2, 0x1CD), (0x1DF, 0x1EF, 2, 0x1DE), (0x1F9, 0x21F, 2, 0x1F8),
    (0x223, 0x233, 2, 0x222), (0x247, 0x24F, 2, 0x246), (0x264, 0x264, 1, 0xA7CB),
    (0x345, 0x345, 1, 0x399), (0x3B1, 0x3C1, 1, 0x391), (0x3C3, 0x3CB, 1, 0x3A3),
    (0x3D9, 0x3EF, 2, 0x3D8), (0x430, 0x44F, 1, 0x410), (0x450, 0x45F, 1, 0x400),
    (0x461, 0x481, 2, 0x460), (0x48B, 0x4BF, 2, 0x48A), (0x4C2, 0x4CE, 2, 0x4C1),
    (0x4D1, 0x52F, 2, 0x4D0), (0x561, 0x586, 1, 0x531), (0x10D0, 0x10FA, 1, 0x1C90),
    (0x13F8, 0x13FD, 1, 0x13F0), (0x1C8A, 0x1C8A, 1, 0x1C89), (0x1E01, 0x1E95, 2, 0x1E00),
    (0x1EA1, 0x1EFF, 2, 0x1EA0), (0x1F00, 0x1F07, 1, 0x1F08), (0x1F10, 0x1F15, 1, 0x1F18),
    (0x1F20, 0x1F27, 1, 0x1F28), (0x1F30, 0x1F37, 1, 0x1F38), (0x1F40, 0x1F45, 1, 0x1F48),
    (0x1F60, 0x1F67, 1, 0x1F68), (0x1F70, 0x1F71, 1, 0x1FBA), (0x1F72, 0x1F75, 1, 0x1FC8),
    (0x1F76, 0x1F77, 1, 0x1FDA), (0x1F78, 0x1F79, 1, 0x1FF8), (0x1F7A, 0x1F7B, 1, 0x1FEA),
    (0x1F7C, 0x1F7D, 1, 0x1FFA), (0x1FBE, 0x1FBE, 1, 0x399), (0x2170, 0x217F, 1, 0x2160),
    (0x24D0, 0x24E9, 1, 0x24B6), (0x2C30, 0x2C5F, 1, 0x2C00), (0x2C81, 0x2CE3, 2, 0x2C80),
    (0x2D00, 0x2D25, 1, 0x10A0), (0xA641, 0xA66D, 2, 0xA640), (0xA681, 0xA69B, 2, 0xA680),
    (0xA723, 0xA72F, 2, 0xA722), (0xA733, 0xA76F, 2, 0xA732), (0xA77F, 0xA787, 2, 0xA77E),
    (0xA797, 0xA7A9, 2, 0xA796), (0xA7B5, 0xA7C3, 2, 0xA7B4), (0xA7CD, 0xA7DB, 2, 0xA7CC),
    (0xAB70, 0xABBF, 1, 0x13A0), (0xFF41, 0xFF5A, 1, 0xFF21), (0x10428, 0x1044F, 1, 0x10400),
    (0x104D8, 0x104FB, 1, 0x104B0), (0x10597, 0x105A1, 1, 0x10570), (0x105A3, 0x105B1, 1, 0x1057C),
    (0x105B3, 0x105B9, 1, 0x1058C), (0x10CC0, 0x10CF2, 1, 0x10C80), (0x10D70, 0x10D85, 1, 0x10D50),
    (0x118C0, 0x118DF, 1, 0x118A0), (0x16E60, 0x16E7F, 1, 0x16E40), (0x16EBB, 0x16ED3, 1, 0x16EA0),
    (0x1E922, 0x1E943, 1, 0x1E900)]

/-- The runs of sixteen Greek letters with iota: the first letter, and the upper case of the first
eight letters and of the last eight, in front of a capital iota. -/
def iotaRuns : List (Nat × Nat) :=
  [(0x1F80, 0x1F08), (0x1F90, 0x1F28), (0x1FA0, 0x1F68)]

/-- The other characters whose upper case is a sequence. -/
def upperSequences : List (Nat × List Nat) :=
  [(0xDF, [0x53, 0x53]), (0x149, [0x2BC, 0x4E]), (0x1F0, [0x4A, 0x30C]),
    (0x390, [0x399, 0x308, 0x301]), (0x3B0, [0x3A5, 0x308, 0x301]), (0x587, [0x535, 0x552]),
    (0x1E96, [0x48, 0x331]), (0x1E97, [0x54, 0x308]), (0x1E98, [0x57, 0x30A]),
    (0x1E99, [0x59, 0x30A]), (0x1E9A, [0x41, 0x2BE]), (0x1F50, [0x3A5, 0x313]),
    (0x1F52, [0x3A5, 0x313, 0x300]), (0x1F54, [0x3A5, 0x313, 0x301]),
    (0x1F56, [0x3A5, 0x313, 0x342]), (0x1FB2, [0x1FBA, 0x399]), (0x1FB3, [0x391, 0x399]),
    (0x1FB4, [0x386, 0x399]), (0x1FB6, [0x391, 0x342]), (0x1FB7, [0x391, 0x342, 0x399]),
    (0x1FBC, [0x391, 0x399]), (0x1FC2, [0x1FCA, 0x399]), (0x1FC3, [0x397, 0x399]),
    (0x1FC4, [0x389, 0x399]), (0x1FC6, [0x397, 0x342]), (0x1FC7, [0x397, 0x342, 0x399]),
    (0x1FCC, [0x397, 0x399]), (0x1FD2, [0x399, 0x308, 0x300]), (0x1FD3, [0x399, 0x308, 0x301]),
    (0x1FD6, [0x399, 0x342]), (0x1FD7, [0x399, 0x308, 0x342]), (0x1FE2, [0x3A5, 0x308, 0x300]),
    (0x1FE3, [0x3A5, 0x308, 0x301]), (0x1FE4, [0x3A1, 0x313]), (0x1FE6, [0x3A5, 0x342]),
    (0x1FE7, [0x3A5, 0x308, 0x342]), (0x1FF2, [0x1FFA, 0x399]), (0x1FF3, [0x3A9, 0x399]),
    (0x1FF4, [0x38F, 0x399]), (0x1FF6, [0x3A9, 0x342]), (0x1FF7, [0x3A9, 0x342, 0x399]),
    (0x1FFC, [0x3A9, 0x399]), (0xFB00, [0x46, 0x46]), (0xFB01, [0x46, 0x49]),
    (0xFB02, [0x46, 0x4C]), (0xFB03, [0x46, 0x46, 0x49]), (0xFB04, [0x46, 0x46, 0x4C]),
    (0xFB05, [0x53, 0x54]), (0xFB06, [0x53, 0x54]), (0xFB13, [0x544, 0x546]),
    (0xFB14, [0x544, 0x535]), (0xFB15, [0x544, 0x53B]), (0xFB16, [0x54E, 0x546]),
    (0xFB17, [0x544, 0x53D])]

/-- The character that follows a character in a list of pairs. -/
def upperInPairs (c : Char) : List Char → Option Char
  | lower :: upper :: rest => if c == lower then some upper else upperInPairs c rest
  | _ => none

/-- The upper case of a character that lies in a run. -/
def upperInRun (code : Nat) : Option Nat :=
  (upperRuns.find? fun (first, last, stride, _) =>
    first ≤ code && code ≤ last && (code - first) % stride == 0).map
      fun (first, _, _, target) => target + (code - first)

/-- The upper case of a character that has a sequence. -/
def upperSequence? (code : Nat) : Option (List Nat) :=
  ((iotaRuns.find? fun (first, _) => first ≤ code && code < first + 16).map
    fun (first, target) => [target + (code - first) % 8, 0x399]).or
      (upperSequences.lookup code)

/-- The upper case of a character. -/
def upperCase (c : Char) : List Char :=
  if c.toNat < 128 then [c.toUpper]
  else
    match upperSequence? c.toNat with
    | some codes => codes.map Char.ofNat
    | none =>
      [((upperInPairs c upperPairs.toList).or ((upperInRun c.toNat).map Char.ofNat)).getD c]

end Componentry.Text
