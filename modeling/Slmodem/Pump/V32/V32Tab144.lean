/-!
# The V.32 constellations

`V32TAB144.c`: the points of the four trellis modes by label.
-/

namespace Slmodem
namespace V32

def vtbImap16T : List Int :=
  [12288, -4096, -12288, 4096, 12288, -4096, -12288, 4096,
    -4096, 12288, 4096, -12288, -12288, 4096, 12288, -4096]

def vtbQmap16T : List Int :=
  [-12288, 4096, 12288, -4096, 4096, -12288, -4096, 12288,
    12288, -4096, -12288, 4096, -12288, 4096, 12288, -4096]

def vtbImap32 : List Int :=
  [-16384, 0, 0, 16384, 16384, 0, 0, -16384,
    -8192, -8192, 8192, 8192, 8192, 8192, -8192, -8192,
    -12288, 4096, -12288, 4096, 12288, -4096, 12288, -4096,
    4096, -12288, 4096, 4096, -4096, 12288, -4096, -4096]

def vtbQmap32 : List Int :=
  [4096, -12288, 4096, 4096, -4096, 12288, -4096, -4096,
    12288, -4096, 12288, -4096, -12288, 4096, -12288, 4096,
    -8192, -8192, 8192, 8192, 8192, 8192, -8192, -8192,
    16384, 0, 0, -16384, -16384, 0, 0, 16384]

def vtbImap64 : List Int :=
  [14336, 6144, 14336, -10240, 6144, -2048, -2048, -10240,
    -14336, -6144, -14336, 10240, -6144, 2048, 2048, 10240,
    -2048, -10240, 14336, -10240, 6144, -2048, 14336, 6144,
    2048, 10240, -14336, 10240, -6144, 2048, -14336, -6144,
    -10240, -2048, -10240, 14336, -2048, 6144, 6144, 14336,
    10240, 2048, 10240, -14336, 2048, -6144, -6144, -14336,
    2048, 10240, -14336, 10240, -6144, 2048, -14336, -6144,
    -2048, -10240, 14336, -10240, 6144, -2048, 14336, 6144]

def vtbQmap64 : List Int :=
  [2048, 10240, -14336, 10240, -6144, 2048, -14336, -6144,
    -2048, -10240, 14336, -10240, 6144, -2048, 14336, 6144,
    10240, 2048, 10240, -14336, 2048, -6144, -6144, -14336,
    -10240, -2048, -10240, 14336, -2048, 6144, 6144, 14336,
    -2048, -10240, 14336, -10240, 6144, -2048, 14336, 6144,
    2048, 10240, -14336, 10240, -6144, 2048, -14336, -6144,
    -14336, -6144, -14336, 10240, -6144, 2048, 2048, 10240,
    14336, 6144, 14336, -10240, 6144, -2048, -2048, -10240]

def vtbImap128 : List Int :=
  [-16384, 16384, 8192, 8192, -8192, -8192, 0, 0,
    -16384, 16384, 8192, 8192, -8192, -8192, 0, 0,
    16384, -16384, -8192, -8192, 8192, 8192, 0, 0,
    16384, -16384, -8192, -8192, 8192, 8192, 0, 0,
    4096, 4096, 4096, 12288, 4096, 12288, 4096, 12288,
    -4096, -4096, -4096, -12288, -4096, -12288, -4096, -12288,
    -4096, -4096, -4096, -12288, -4096, -12288, -4096, -12288,
    4096, 4096, 4096, 12288, 4096, 12288, 4096, 12288,
    18432, -14336, -6144, -6144, 10240, 10240, 2048, 2048,
    18432, -14336, -6144, -6144, 10240, 10240, 2048, 2048,
    -18432, 14336, 6144, 6144, -10240, -10240, -2048, -2048,
    -18432, 14336, 6144, 6144, -10240, -10240, -2048, -2048,
    -6144, -6144, -6144, -14336, -6144, -14336, -6144, -14336,
    2048, 2048, 2048, 10240, 2048, 10240, 2048, 10240,
    6144, 6144, 6144, 14336, 6144, 14336, 6144, 14336,
    -2048, -2048, -2048, -10240, -2048, -10240, -2048, -10240]

def vtbQmap128 : List Int :=
  [-6144, -6144, -6144, -14336, -6144, -14336, -6144, -14336,
    2048, 2048, 2048, 10240, 2048, 10240, 2048, 10240,
    6144, 6144, 6144, 14336, 6144, 14336, 6144, 14336,
    -2048, -2048, -2048, -10240, -2048, -10240, -2048, -10240,
    -18432, 14336, 6144, 6144, -10240, -10240, -2048, -2048,
    -18432, 14336, 6144, 6144, -10240, -10240, -2048, -2048,
    18432, -14336, -6144, -6144, 10240, 10240, 2048, 2048,
    18432, -14336, -6144, -6144, 10240, 10240, 2048, 2048,
    4096, 4096, 4096, 12288, 4096, 12288, 4096, 12288,
    -4096, -4096, -4096, -12288, -4096, -12288, -4096, -12288,
    -4096, -4096, -4096, -12288, -4096, -12288, -4096, -12288,
    4096, 4096, 4096, 12288, 4096, 12288, 4096, 12288,
    16384, -16384, -8192, -8192, 8192, 8192, 0, 0,
    16384, -16384, -8192, -8192, 8192, 8192, 0, 0,
    -16384, 16384, 8192, 8192, -8192, -8192, 0, 0,
    -16384, 16384, 8192, 8192, -8192, -8192, 0, 0]

end V32
end Slmodem
