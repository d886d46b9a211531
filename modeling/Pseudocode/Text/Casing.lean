/-!
Letter case of characters beyond the basic Latin ones. The tables hold runs of letters that move by one
distance, the letters that become several characters, and the two classes that decide which form a small
sigma takes.
-/

namespace Pseudocode.Text

/-- `(first, count, step, shift)`: from `first` on, `count` code points that are `step` apart move by
`shift`. -/
abbrev CaseRun := Nat × Nat × Nat × Int

/-- `(first, count)`: the `count` code points from `first` on. -/
abbrev CodeRange := Nat × Nat

/-- Small letters whose capital has them as its small form. -/
def pairedRuns : List CaseRun :=
  [(0x61, 26, 1, -32), (0xe0, 23, 1, -32), (0xf8, 7, 1, -32), (0xff, 1, 1, 121), (0x101, 24, 2, -1),
   (0x133, 3, 2, -1), (0x13a, 8, 2, -1), (0x14b, 23, 2, -1), (0x17a, 3, 2, -1), (0x180, 1, 1, 195),
   (0x183, 2, 2, -1), (0x188, 1, 1, -1), (0x18c, 1, 1, -1), (0x192, 1, 1, -1), (0x195, 1, 1, 97),
   (0x199, 1, 1, -1), (0x19a, 1, 1, 163), (0x19b, 1, 1, 42561), (0x19e, 1, 1, 130), (0x1a1, 3, 2, -1),
   (0x1a8, 1, 1, -1), (0x1ad, 1, 1, -1), (0x1b0, 1, 1, -1), (0x1b4, 2, 2, -1), (0x1b9, 1, 1, -1),
   (0x1bd, 1, 1, -1), (0x1bf, 1, 1, 56), (0x1c6, 1, 1, -2), (0x1c9, 1, 1, -2), (0x1cc, 1, 1, -2),
   (0x1ce, 8, 2, -1), (0x1dd, 1, 1, -79), (0x1df, 9, 2, -1), (0x1f3, 1, 1, -2), (0x1f5, 1, 1, -1),
   (0x1f9, 20, 2, -1), (0x223, 9, 2, -1), (0x23c, 1, 1, -1), (0x23f, 2, 1, 10815), (0x242, 1, 1, -1),
   (0x247, 5, 2, -1), (0x250, 1, 1, 10783), (0x251, 1, 1, 10780), (0x252, 1, 1, 10782), (0x253, 1, 1, -210),
   (0x254, 1, 1, -206), (0x256, 2, 1, -205), (0x259, 1, 1, -202), (0x25b, 1, 1, -203), (0x25c, 1, 1, 42319),
   (0x260, 1, 1, -205), (0x261, 1, 1, 42315), (0x263, 1, 1, -207), (0x264, 1, 1, 42343),
   (0x265, 1, 1, 42280), (0x266, 1, 1, 42308), (0x268, 1, 1, -209), (0x269, 1, 1, -211),
   (0x26a, 1, 1, 42308), (0x26b, 1, 1, 10743), (0x26c, 1, 1, 42305), (0x26f, 1, 1, -211),
   (0x271, 1, 1, 10749), (0x272, 1, 1, -213), (0x275, 1, 1, -214), (0x27d, 1, 1, 10727),
   (0x280, 1, 1, -218), (0x282, 1, 1, 42307), (0x283, 1, 1, -218), (0x287, 1, 1, 42282),
   (0x288, 1, 1, -218), (0x289, 1, 1, -69), (0x28a, 2, 1, -217), (0x28c, 1, 1, -71), (0x292, 1, 1, -219),
   (0x29d, 1, 1, 42261), (0x29e, 1, 1, 42258), (0x371, 2, 2, -1), (0x377, 1, 1, -1), (0x37b, 3, 1, 130),
   (0x3ac, 1, 1, -38), (0x3ad, 3, 1, -37), (0x3b1, 17, 1, -32), (0x3c3, 9, 1, -32), (0x3cc, 1, 1, -64),
   (0x3cd, 2, 1, -63), (0x3d7, 1, 1, -8), (0x3d9, 12, 2, -1), (0x3f2, 1, 1, 7), (0x3f3, 1, 1, -116),
   (0x3f8, 1, 1, -1), (0x3fb, 1, 1, -1), (0x430, 32, 1, -32), (0x450, 16, 1, -80), (0x461, 17, 2, -1),
   (0x48b, 27, 2, -1), (0x4c2, 7, 2, -1), (0x4cf, 1, 1, -15), (0x4d1, 48, 2, -1), (0x561, 38, 1, -48),
   (0x10d0, 43, 1, 3008), (0x10fd, 3, 1, 3008), (0x13f8, 6, 1, -8), (0x1c8a, 1, 1, -1),
   (0x1d79, 1, 1, 35332), (0x1d7d, 1, 1, 3814), (0x1d8e, 1, 1, 35384), (0x1e01, 75, 2, -1),
   (0x1ea1, 48, 2, -1), (0x1f00, 8, 1, 8), (0x1f10, 6, 1, 8), (0x1f20, 8, 1, 8), (0x1f30, 8, 1, 8),
   (0x1f40, 6, 1, 8), (0x1f51, 4, 2, 8), (0x1f60, 8, 1, 8), (0x1f70, 2, 1, 74), (0x1f72, 4, 1, 86),
   (0x1f76, 2, 1, 100), (0x1f78, 2, 1, 128), (0x1f7a, 2, 1, 112), (0x1f7c, 2, 1, 126), (0x1fb0, 2, 1, 8),
   (0x1fd0, 2, 1, 8), (0x1fe0, 2, 1, 8), (0x1fe5, 1, 1, 7), (0x214e, 1, 1, -28), (0x2170, 16, 1, -16),
   (0x2184, 1, 1, -1), (0x24d0, 26, 1, -26), (0x2c30, 48, 1, -48), (0x2c61, 1, 1, -1),
   (0x2c65, 1, 1, -10795), (0x2c66, 1, 1, -10792), (0x2c68, 3, 2, -1), (0x2c73, 1, 1, -1),
   (0x2c76, 1, 1, -1), (0x2c81, 50, 2, -1), (0x2cec, 2, 2, -1), (0x2cf3, 1, 1, -1), (0x2d00, 38, 1, -7264),
   (0x2d27, 1, 1, -7264), (0x2d2d, 1, 1, -7264), (0xa641, 23, 2, -1), (0xa681, 14, 2, -1),
   (0xa723, 7, 2, -1), (0xa733, 31, 2, -1), (0xa77a, 2, 2, -1), (0xa77f, 5, 2, -1), (0xa78c, 1, 1, -1),
   (0xa791, 2, 2, -1), (0xa794, 1, 1, 48), (0xa797, 10, 2, -1), (0xa7b5, 8, 2, -1), (0xa7c8, 2, 2, -1),
   (0xa7cd, 8, 2, -1), (0xa7f6, 1, 1, -1), (0xab53, 1, 1, -928), (0xab70, 80, 1, -38864),
   (0xff41, 26, 1, -32), (0x10428, 40, 1, -40), (0x104d8, 36, 1, -40), (0x10597, 19, 2, -39),
   (0x10598, 5, 2, -39), (0x105a4, 7, 2, -39), (0x105b4, 3, 2, -39), (0x105bc, 1, 1, -39),
   (0x10cc0, 51, 1, -64), (0x10d70, 22, 1, -32), (0x118c0, 32, 1, -32), (0x16e60, 32, 1, -32),
   (0x16ebb, 25, 1, -27), (0x1e922, 34, 1, -34)]

/-- Letters with a capital that has another small form. -/
def capitalOnlyRuns : List CaseRun :=
  [(0xb5, 1, 1, 743), (0x131, 1, 1, -232), (0x17f, 1, 1, -300), (0x1c5, 1, 1, -1), (0x1c8, 1, 1, -1),
   (0x1cb, 1, 1, -1), (0x1f2, 1, 1, -1), (0x345, 1, 1, 84), (0x3c2, 1, 1, -31), (0x3d0, 1, 1, -62),
   (0x3d1, 1, 1, -57), (0x3d5, 1, 1, -47), (0x3d6, 1, 1, -54), (0x3f0, 1, 1, -86), (0x3f1, 1, 1, -80),
   (0x3f5, 1, 1, -96), (0x1c80, 1, 1, -6254), (0x1c81, 1, 1, -6253), (0x1c82, 1, 1, -6244),
   (0x1c83, 2, 1, -6242), (0x1c85, 1, 1, -6243), (0x1c86, 1, 1, -6236), (0x1c87, 1, 1, -6181),
   (0x1c88, 1, 1, 35266), (0x1e9b, 1, 1, -59), (0x1fbe, 1, 1, -7205)]

/-- Letters with a small form that has another capital. -/
def smallOnlyRuns : List CaseRun :=
  [(0x1c5, 1, 1, 1), (0x1c8, 1, 1, 1), (0x1cb, 1, 1, 1), (0x1f2, 1, 1, 1), (0x3f4, 1, 1, -60),
   (0x1e9e, 1, 1, -7615), (0x1f88, 8, 1, -8), (0x1f98, 8, 1, -8), (0x1fa8, 8, 1, -8), (0x1fbc, 1, 1, -9),
   (0x1fcc, 1, 1, -9), (0x1ffc, 1, 1, -9), (0x2126, 1, 1, -7517), (0x212a, 1, 1, -8383),
   (0x212b, 1, 1, -8262)]

/-- `(first, capital)`: each of the eight letters from `first` on has one of those from `capital` on as its
capital, and an iota behind it. -/
def iotaRuns : List (Nat × Nat) :=
  [(0x1f80, 0x1f08), (0x1f88, 0x1f08), (0x1f90, 0x1f28), (0x1f98, 0x1f28), (0x1fa0, 0x1f68), (0x1fa8, 0x1f68)]

/-- Letters whose capital is several characters. -/
def wideCapitals : List (Nat × List Nat) :=
  [(0xdf, [0x53, 0x53]), (0x149, [0x2bc, 0x4e]), (0x1f0, [0x4a, 0x30c]), (0x390, [0x399, 0x308, 0x301]),
   (0x3b0, [0x3a5, 0x308, 0x301]), (0x587, [0x535, 0x552]), (0x1e96, [0x48, 0x331]), (0x1e97, [0x54, 0x308]),
   (0x1e98, [0x57, 0x30a]), (0x1e99, [0x59, 0x30a]), (0x1e9a, [0x41, 0x2be]), (0x1f50, [0x3a5, 0x313]),
   (0x1f52, [0x3a5, 0x313, 0x300]), (0x1f54, [0x3a5, 0x313, 0x301]), (0x1f56, [0x3a5, 0x313, 0x342]),
   (0x1fb2, [0x1fba, 0x399]), (0x1fb3, [0x391, 0x399]), (0x1fb4, [0x386, 0x399]), (0x1fb6, [0x391, 0x342]),
   (0x1fb7, [0x391, 0x342, 0x399]), (0x1fbc, [0x391, 0x399]), (0x1fc2, [0x1fca, 0x399]),
   (0x1fc3, [0x397, 0x399]), (0x1fc4, [0x389, 0x399]), (0x1fc6, [0x397, 0x342]),
   (0x1fc7, [0x397, 0x342, 0x399]), (0x1fcc, [0x397, 0x399]), (0x1fd2, [0x399, 0x308, 0x300]),
   (0x1fd3, [0x399, 0x308, 0x301]), (0x1fd6, [0x399, 0x342]), (0x1fd7, [0x399, 0x308, 0x342]),
   (0x1fe2, [0x3a5, 0x308, 0x300]), (0x1fe3, [0x3a5, 0x308, 0x301]), (0x1fe4, [0x3a1, 0x313]),
   (0x1fe6, [0x3a5, 0x342]), (0x1fe7, [0x3a5, 0x308, 0x342]), (0x1ff2, [0x1ffa, 0x399]),
   (0x1ff3, [0x3a9, 0x399]), (0x1ff4, [0x38f, 0x399]), (0x1ff6, [0x3a9, 0x342]),
   (0x1ff7, [0x3a9, 0x342, 0x399]), (0x1ffc, [0x3a9, 0x399]), (0xfb00, [0x46, 0x46]), (0xfb01, [0x46, 0x49]),
   (0xfb02, [0x46, 0x4c]), (0xfb03, [0x46, 0x46, 0x49]), (0xfb04, [0x46, 0x46, 0x4c]), (0xfb05, [0x53, 0x54]),
   (0xfb06, [0x53, 0x54]), (0xfb13, [0x544, 0x546]), (0xfb14, [0x544, 0x535]), (0xfb15, [0x544, 0x53b]),
   (0xfb16, [0x54e, 0x546]), (0xfb17, [0x544, 0x53d])] ++
    iotaRuns.flatMap fun (first, capital) => (List.range 8).map fun k => (first + k, [capital + k, 0x399])

/-- Letters whose small form is several characters. -/
def wideSmalls : List (Nat × List Nat) :=
  [(0x130, [0x69, 0x307])]

/-- Characters that a word may hold without deciding its case, such as marks and apostrophes: those in a row, and
those that stand alone. -/
def caseIgnorable : List CodeRange :=
  [(0xb7, 2), (0x2b0, 192), (0x374, 2), (0x384, 2), (0x483, 7), (0x591, 45), (0x5c1, 2), (0x5c4, 2), (0x600, 6),
   (0x610, 11), (0x64b, 21), (0x6d6, 8), (0x6df, 10), (0x6ea, 4), (0x730, 27), (0x7a6, 11), (0x7eb, 11),
   (0x816, 24), (0x859, 3), (0x890, 2), (0x897, 9), (0x8c9, 58), (0x941, 8), (0x951, 7), (0x962, 2), (0x9c1, 4),
   (0x9e2, 2), (0xa01, 2), (0xa41, 2), (0xa47, 2), (0xa4b, 3), (0xa70, 2), (0xa81, 2), (0xac1, 5), (0xac7, 2),
   (0xae2, 2), (0xafa, 6), (0xb41, 4), (0xb55, 2), (0xb62, 2), (0xc3e, 3), (0xc46, 3), (0xc4a, 4), (0xc55, 2),
   (0xc62, 2), (0xccc, 2), (0xce2, 2), (0xd00, 2), (0xd3b, 2), (0xd41, 4), (0xd62, 2), (0xdd2, 3), (0xe34, 7),
   (0xe46, 9), (0xeb4, 9), (0xec8, 7), (0xf18, 2), (0xf71, 14), (0xf80, 5), (0xf86, 2), (0xf8d, 11),
   (0xf99, 36), (0x102d, 4), (0x1032, 6), (0x1039, 2), (0x103d, 2), (0x1058, 2), (0x105e, 3), (0x1071, 4),
   (0x1085, 2), (0x135d, 3), (0x1712, 3), (0x1732, 2), (0x1752, 2), (0x1772, 2), (0x17b4, 2), (0x17b7, 7),
   (0x17c9, 11), (0x180b, 5), (0x1885, 2), (0x1920, 3), (0x1927, 2), (0x1939, 3), (0x1a17, 2), (0x1a58, 7),
   (0x1a65, 8), (0x1a73, 10), (0x1ab0, 46), (0x1ae0, 12), (0x1b00, 4), (0x1b36, 5), (0x1b6b, 9), (0x1b80, 2),
   (0x1ba2, 4), (0x1ba8, 2), (0x1bab, 3), (0x1be8, 2), (0x1bef, 3), (0x1c2c, 8), (0x1c36, 2), (0x1c78, 6),
   (0x1cd0, 3), (0x1cd4, 13), (0x1ce2, 7), (0x1cf8, 2), (0x1d2c, 63), (0x1d9b, 101), (0x1fbf, 3), (0x1fcd, 3),
   (0x1fdd, 3), (0x1fed, 3), (0x1ffd, 2), (0x200b, 5), (0x2018, 2), (0x202a, 5), (0x2060, 5), (0x2066, 10),
   (0x2090, 13), (0x20d0, 33), (0x2c7c, 2), (0x2cef, 3), (0x2de0, 32), (0x302a, 4), (0x3031, 5), (0x3099, 6),
   (0x30fc, 3), (0xa4f8, 6), (0xa66f, 4), (0xa674, 10), (0xa69c, 4), (0xa6f0, 2), (0xa700, 34), (0xa788, 3),
   (0xa7f1, 4), (0xa7f8, 2), (0xa825, 2), (0xa8c4, 2), (0xa8e0, 18), (0xa926, 8), (0xa947, 11), (0xa980, 3),
   (0xa9b6, 4), (0xa9bc, 2), (0xa9e5, 2), (0xaa29, 6), (0xaa31, 2), (0xaa35, 2), (0xaab2, 3), (0xaab7, 2),
   (0xaabe, 2), (0xaaec, 2), (0xaaf3, 2), (0xab5b, 5), (0xab69, 3), (0xfbb2, 17), (0xfe00, 16), (0xfe20, 16),
   (0xff9e, 2), (0xfff9, 3), (0x10376, 5), (0x10780, 6), (0x10787, 42), (0x107b2, 9), (0x10a01, 3),
   (0x10a05, 2), (0x10a0c, 4), (0x10a38, 3), (0x10ae5, 2), (0x10d24, 4), (0x10d69, 5), (0x10eab, 2),
   (0x10efa, 6), (0x10f46, 11), (0x10f82, 4), (0x11038, 15), (0x11073, 2), (0x1107f, 3), (0x110b3, 4),
   (0x110b9, 2), (0x11100, 3), (0x11127, 5), (0x1112d, 8), (0x11180, 2), (0x111b6, 9), (0x111c9, 4),
   (0x1122f, 3), (0x11236, 2), (0x112e3, 8), (0x11300, 2), (0x1133b, 2), (0x11366, 7), (0x11370, 5),
   (0x113bb, 6), (0x113e1, 2), (0x11438, 8), (0x11442, 3), (0x114b3, 6), (0x114bf, 2), (0x114c2, 2),
   (0x115b2, 4), (0x115bc, 2), (0x115bf, 2), (0x115dc, 2), (0x11633, 8), (0x1163f, 2), (0x116b0, 6),
   (0x11722, 4), (0x11727, 5), (0x1182f, 9), (0x11839, 2), (0x1193b, 2), (0x119d4, 4), (0x119da, 2),
   (0x11a01, 10), (0x11a33, 6), (0x11a3b, 4), (0x11a51, 6), (0x11a59, 3), (0x11a8a, 13), (0x11a98, 2),
   (0x11b62, 3), (0x11c30, 7), (0x11c38, 6), (0x11c92, 22), (0x11caa, 7), (0x11cb2, 2), (0x11cb5, 2),
   (0x11d31, 6), (0x11d3c, 2), (0x11d3f, 7), (0x11d90, 2), (0x11ef3, 2), (0x11f00, 2), (0x11f36, 5),
   (0x13430, 17), (0x13447, 15), (0x1611e, 12), (0x1612d, 3), (0x16af0, 5), (0x16b30, 7), (0x16b40, 4),
   (0x16d40, 3), (0x16d6b, 2), (0x16f8f, 17), (0x16fe0, 2), (0x16fe3, 2), (0x16ff2, 2), (0x1aff0, 4),
   (0x1aff5, 7), (0x1affd, 2), (0x1bc9d, 2), (0x1bca0, 4), (0x1cf00, 46), (0x1cf30, 23), (0x1d167, 3),
   (0x1d173, 16), (0x1d185, 7), (0x1d1aa, 4), (0x1d242, 3), (0x1da00, 55), (0x1da3b, 50), (0x1da9b, 5),
   (0x1daa1, 15), (0x1e000, 7), (0x1e008, 17), (0x1e01b, 7), (0x1e023, 2), (0x1e026, 5), (0x1e030, 62),
   (0x1e130, 14), (0x1e2ec, 4), (0x1e4eb, 5), (0x1e5ee, 2), (0x1e6ee, 2), (0x1e8d0, 7), (0x1e944, 8),
   (0x1f3fb, 5), (0xe0020, 96), (0xe0100, 240)] ++
  [0x27, 0x2e, 0x3a, 0x5e, 0x60, 0xa8, 0xad, 0xaf, 0xb4, 0x37a, 0x387, 0x559, 0x55f, 0x5bf, 0x5c7, 0x5f4, 0x61c,
   0x640, 0x670, 0x70f, 0x711, 0x7fa, 0x7fd, 0x888, 0x93a, 0x93c, 0x94d, 0x971, 0x981, 0x9bc, 0x9cd, 0x9fe,
   0xa3c, 0xa51, 0xa75, 0xabc, 0xacd, 0xb01, 0xb3c, 0xb3f, 0xb4d, 0xb82, 0xbc0, 0xbcd, 0xc00, 0xc04, 0xc3c,
   0xc81, 0xcbc, 0xcbf, 0xcc6, 0xd4d, 0xd81, 0xdca, 0xdd6, 0xe31, 0xeb1, 0xec6, 0xf35, 0xf37, 0xf39, 0xfc6,
   0x1082, 0x108d, 0x109d, 0x10fc, 0x17c6, 0x17d7, 0x17dd, 0x1843, 0x18a9, 0x1932, 0x1a1b, 0x1a56, 0x1a60,
   0x1a62, 0x1a7f, 0x1aa7, 0x1b34, 0x1b3c, 0x1b42, 0x1be6, 0x1bed, 0x1ced, 0x1cf4, 0x1d78, 0x1fbd, 0x2024,
   0x2027, 0x2071, 0x207f, 0x2d6f, 0x2d7f, 0x2e2f, 0x3005, 0x303b, 0xa015, 0xa60c, 0xa67f, 0xa770, 0xa802,
   0xa806, 0xa80b, 0xa82c, 0xa8ff, 0xa9b3, 0xa9cf, 0xaa43, 0xaa4c, 0xaa70, 0xaa7c, 0xaab0, 0xaac1, 0xaadd,
   0xaaf6, 0xabe5, 0xabe8, 0xabed, 0xfb1e, 0xfe13, 0xfe52, 0xfe55, 0xfeff, 0xff07, 0xff0e, 0xff1a, 0xff3e,
   0xff40, 0xff70, 0xffe3, 0x101fd, 0x102e0, 0x10a3f, 0x10d4e, 0x10d6f, 0x10ec5, 0x11001, 0x11070, 0x110bd,
   0x110c2, 0x110cd, 0x11173, 0x111cf, 0x11234, 0x1123e, 0x11241, 0x112df, 0x11340, 0x113ce, 0x113d0, 0x113d2,
   0x11446, 0x1145e, 0x114ba, 0x1163d, 0x116ab, 0x116ad, 0x116b7, 0x1171d, 0x1171f, 0x1193e, 0x11943, 0x119e0,
   0x11a47, 0x11b60, 0x11b66, 0x11c3f, 0x11d3a, 0x11d47, 0x11d95, 0x11d97, 0x11dd9, 0x11f40, 0x11f42, 0x11f5a,
   0x16f4f, 0x1da75, 0x1da84, 0x1e08f, 0x1e2ae, 0x1e6e3, 0x1e6e6, 0x1e6f5, 0x1e6ff, 0xe0001].map (·, 1)

/-- Letters that have a case, those of `caseIgnorable` apart. -/
def cased : List CodeRange :=
  [(0x41, 26), (0x61, 26), (0xaa, 1), (0xb5, 1), (0xba, 1), (0xc0, 23), (0xd8, 31), (0xf8, 195), (0x1bc, 4),
   (0x1c4, 208), (0x296, 26), (0x370, 4), (0x376, 2), (0x37b, 3), (0x37f, 1), (0x386, 1), (0x388, 3),
   (0x38c, 1), (0x38e, 20), (0x3a3, 83), (0x3f7, 139), (0x48a, 166), (0x531, 38), (0x560, 41), (0x10a0, 38),
   (0x10c7, 1), (0x10cd, 1), (0x10d0, 43), (0x10fd, 3), (0x13a0, 86), (0x13f8, 6), (0x1c80, 11),
   (0x1c90, 43), (0x1cbd, 3), (0x1d00, 44), (0x1d6b, 13), (0x1d79, 34), (0x1e00, 278), (0x1f18, 6),
   (0x1f20, 38), (0x1f48, 6), (0x1f50, 8), (0x1f59, 1), (0x1f5b, 1), (0x1f5d, 1), (0x1f5f, 31),
   (0x1f80, 53), (0x1fb6, 7), (0x1fbe, 1), (0x1fc2, 3), (0x1fc6, 7), (0x1fd0, 4), (0x1fd6, 6), (0x1fe0, 13),
   (0x1ff2, 3), (0x1ff6, 7), (0x2102, 1), (0x2107, 1), (0x210a, 10), (0x2115, 1), (0x2119, 5), (0x2124, 1),
   (0x2126, 1), (0x2128, 1), (0x212a, 4), (0x212f, 6), (0x2139, 1), (0x213c, 4), (0x2145, 5), (0x214e, 1),
   (0x2160, 32), (0x2183, 2), (0x24b6, 52), (0x2c00, 124), (0x2c7e, 103), (0x2ceb, 4), (0x2cf2, 2),
   (0x2d00, 38), (0x2d27, 1), (0x2d2d, 1), (0xa640, 46), (0xa680, 28), (0xa722, 78), (0xa771, 23),
   (0xa78b, 4), (0xa790, 77), (0xa7f5, 2), (0xa7fa, 1), (0xab30, 43), (0xab60, 9), (0xab70, 80),
   (0xfb00, 7), (0xfb13, 5), (0xff21, 26), (0xff41, 26), (0x10400, 80), (0x104b0, 36), (0x104d8, 36),
   (0x10570, 11), (0x1057c, 15), (0x1058c, 7), (0x10594, 2), (0x10597, 11), (0x105a3, 15), (0x105b3, 7),
   (0x105bb, 2), (0x10c80, 51), (0x10cc0, 51), (0x10d50, 22), (0x10d70, 22), (0x118a0, 64), (0x16e40, 64),
   (0x16ea0, 25), (0x16ebb, 25), (0x1d400, 85), (0x1d456, 71), (0x1d49e, 2), (0x1d4a2, 1), (0x1d4a5, 2),
   (0x1d4a9, 4), (0x1d4ae, 12), (0x1d4bb, 1), (0x1d4bd, 7), (0x1d4c5, 65), (0x1d507, 4), (0x1d50d, 8),
   (0x1d516, 7), (0x1d51e, 28), (0x1d53b, 4), (0x1d540, 5), (0x1d546, 1), (0x1d54a, 7), (0x1d552, 340),
   (0x1d6a8, 25), (0x1d6c2, 25), (0x1d6dc, 31), (0x1d6fc, 25), (0x1d716, 31), (0x1d736, 25), (0x1d750, 31),
   (0x1d770, 25), (0x1d78a, 31), (0x1d7aa, 25), (0x1d7c4, 8), (0x1df00, 10), (0x1df0b, 20), (0x1df25, 6),
   (0x1e900, 68), (0x1f130, 26), (0x1f150, 26), (0x1f170, 26)]

/-- Where a run moves a code point. -/
def CaseRun.apply : CaseRun → Nat → Option Nat
  | (first, count, step, shift), code =>
    if first ≤ code ∧ (code - first) % step = 0 ∧ (code - first) / step < count then
      some ((code : Int) + shift).toNat
    else none

/-- The run that moves the letters back. -/
def CaseRun.back : CaseRun → CaseRun
  | (first, count, step, shift) => (((first : Int) + shift).toNat, count, step, -shift)

/-- Letters with a single capital. -/
def capitalRuns : List CaseRun := pairedRuns ++ capitalOnlyRuns

/-- Letters with a single small form. -/
def smallRuns : List CaseRun := pairedRuns.map CaseRun.back ++ smallOnlyRuns

/-- The forms of a character under a table of runs and a table of wide forms. -/
def recase (runs : List CaseRun) (wide : List (Nat × List Nat)) (c : Char) : List Char :=
  match wide.lookup c.toNat with
  | some codes => codes.map Char.ofNat
  | none =>
    match runs.findSome? (·.apply c.toNat) with
    | some code => [Char.ofNat code]
    | none => [c]

def inClass (ranges : List CodeRange) (c : Char) : Bool :=
  ranges.any fun (first, count) => first ≤ c.toNat && c.toNat < first + count

/-- A cased letter stands next in reading order, with only ignorable characters before it. -/
def meetsCased (cs : List Char) : Bool :=
  match cs.dropWhile (inClass caseIgnorable) with
  | [] => false
  | c :: _ => inClass cased c

def capitalSigma : Char := 'Σ'

/-- The small sigma at a word's end has a form of its own. `before` is what precedes, nearest first.
-/
def smallSigma (before after : List Char) : Char :=
  if meetsCased before && !meetsCased after then 'ς' else 'σ'

/-- Small forms from left to right; `before` is what has been read, nearest first. -/
def toSmall (before : List Char) : List Char → List Char
  | [] => []
  | c :: after =>
    let here := if c = capitalSigma then [smallSigma before after] else recase smallRuns wideSmalls c
    here ++ toSmall (c :: before) after

def upper (s : String) : String := String.ofList (s.toList.flatMap (recase capitalRuns wideCapitals))

def lower (s : String) : String := String.ofList (toSmall [] s.toList)

end Pseudocode.Text
