/-!
# The trellis tables

`fpm_tren.c`: the trellis of the coder and, for each constellation, the rows of eight
boundary points that a region and a quadrant select, four for each half of the states.
-/

namespace Slmodem

def trellisEncodeDifTable : List Nat := [0, 1, 2, 3, 1, 0, 3, 2, 2, 3, 1, 0, 3, 2, 0, 1]

def trellisTransitionTable : List Nat :=
  [0, 6, 2, 4, 2, 4, 0, 6, 4, 2, 6, 0, 6, 0, 4, 2,
    1, 5, 7, 3, 3, 7, 5, 1, 7, 3, 1, 5, 5, 1, 3, 7]

def vtbRegion7200 : List Nat := [0, 32, 32, 64, 64, 64, 96, 96]

def vtbBound7200 : List Nat :=
  [1, 4, 7, 3, 8, 15, 13, 11, 1, 5, 6, 3, 8, 15, 13, 11, 1, 5, 6, 3, 9, 15, 13, 10,
    1, 4, 7, 3, 9, 15, 13, 10, 1, 4, 7, 3, 8, 14, 13, 11, 1, 5, 6, 3, 8, 15, 12, 11,
    1, 5, 6, 3, 9, 15, 12, 10, 1, 4, 7, 3, 9, 14, 13, 10, 1, 4, 7, 2, 8, 15, 13, 11,
    1, 5, 6, 2, 8, 15, 13, 11, 0, 5, 6, 3, 9, 15, 13, 10, 0, 4, 7, 3, 9, 15, 13, 10,
    1, 4, 7, 2, 8, 14, 13, 11, 1, 5, 6, 2, 8, 15, 12, 11, 0, 5, 6, 3, 9, 15, 12, 10,
    0, 4, 7, 3, 9, 14, 13, 10]

def vtbRegion9600 : List Nat :=
  [0, 32, 64, 64, 96, 128, 192, 192, 160, 288, 256, 352, 160, 224, 256, 256,
    0, 32, 64, 64, 96, 128, 320, 192, 160, 224, 256, 256, 160, 224, 384, 256]

def vtbBound9600 : List Nat :=
  [2, 11, 13, 6, 19, 30, 26, 21, 2, 9, 15, 6, 19, 30, 26, 21, 2, 9, 15, 6, 17, 30, 26, 23,
    2, 11, 13, 6, 17, 30, 26, 23, 2, 11, 13, 6, 19, 29, 26, 20, 2, 9, 15, 6, 18, 30, 25, 21,
    2, 9, 15, 6, 16, 30, 9, 23, 2, 11, 13, 6, 17, 29, 26, 22, 3, 11, 13, 4, 19, 29, 26, 20,
    0, 9, 15, 7, 18, 30, 25, 21, 0, 9, 15, 7, 16, 30, 25, 23, 3, 11, 13, 4, 17, 29, 26, 22,
    2, 10, 13, 5, 19, 30, 26, 21, 2, 8, 15, 5, 19, 30, 26, 21, 1, 9, 14, 6, 17, 30, 26, 23,
    1, 11, 12, 6, 17, 30, 26, 23, 2, 10, 13, 5, 19, 29, 26, 20, 2, 8, 15, 5, 18, 30, 25, 21,
    1, 9, 14, 6, 16, 30, 25, 23, 1, 11, 12, 6, 17, 29, 26, 22, 2, 10, 13, 5, 19, 31, 24, 21,
    2, 8, 15, 5, 19, 31, 24, 21, 1, 9, 14, 6, 17, 28, 27, 23, 1, 11, 12, 6, 17, 28, 27, 23,
    3, 10, 13, 4, 19, 29, 26, 20, 0, 8, 15, 7, 18, 30, 25, 21, 0, 9, 14, 7, 16, 30, 25, 23,
    3, 11, 12, 4, 17, 29, 26, 22, 2, 10, 13, 5, 19, 31, 24, 20, 2, 8, 15, 5, 18, 31, 24, 21,
    1, 9, 14, 6, 16, 28, 27, 23, 1, 11, 12, 6, 17, 28, 27, 22, 3, 10, 13, 5, 19, 29, 24, 20,
    0, 8, 15, 5, 18, 31, 25, 21, 1, 9, 14, 7, 16, 28, 25, 23, 1, 11, 12, 4, 17, 29, 27, 22,
    2, 10, 13, 5, 19, 29, 24, 20, 2, 8, 15, 5, 18, 31, 25, 21, 1, 9, 14, 6, 16, 28, 25, 23,
    1, 11, 12, 6, 17, 29, 27, 22, 3, 10, 13, 5, 19, 29, 26, 20, 0, 8, 15, 5, 18, 30, 25, 21,
    1, 9, 14, 7, 16, 30, 25, 23, 1, 11, 12, 4, 17, 29, 26, 22, 3, 10, 13, 4, 19, 29, 24, 20,
    0, 8, 15, 7, 18, 31, 25, 21, 0, 9, 14, 7, 16, 28, 25, 23, 3, 11, 12, 4, 17, 29, 27, 22,
    3, 10, 13, 5, 19, 31, 24, 20, 0, 8, 15, 5, 18, 31, 24, 21, 1, 9, 14, 7, 16, 28, 27, 23,
    1, 11, 12, 4, 17, 28, 27, 22]

def vtbRegion12000 : List Nat :=
  [0, 32, 64, 96, 128, 160, 192, 224, 256, 288, 352, 384, 416, 448, 480, 544,
    576, 384, 608, 640, 704, 736, 576, 576, 768, 832, 864, 736, 736, 576, 896, 928,
    864, 864, 736, 736, 0, 32, 64, 96, 128, 160, 192, 224, 256, 288, 320, 384,
    416, 448, 480, 512, 576, 576, 608, 640, 672, 736, 736, 576, 768, 800, 864, 864,
    736, 736, 896, 928, 928, 864, 864, 736]

def vtbBound12000 : List Nat :=
  [5, 20, 29, 13, 36, 61, 53, 45, 5, 21, 28, 13, 36, 61, 53, 45, 5, 21, 28, 13, 37, 61, 53, 44,
    5, 20, 29, 13, 37, 61, 53, 44, 5, 20, 29, 13, 36, 60, 53, 41, 5, 21, 28, 13, 32, 61, 52, 45,
    5, 21, 28, 13, 33, 61, 52, 44, 5, 20, 29, 13, 37, 60, 53, 40, 1, 20, 29, 15, 36, 60, 53, 41,
    7, 21, 28, 9, 32, 61, 52, 45, 7, 21, 28, 9, 33, 61, 52, 44, 1, 20, 29, 15, 37, 60, 53, 40,
    1, 20, 29, 15, 38, 60, 51, 41, 7, 21, 28, 9, 32, 59, 52, 47, 7, 21, 28, 9, 33, 59, 52, 46,
    1, 20, 29, 15, 39, 60, 51, 40, 1, 18, 27, 15, 38, 60, 51, 41, 7, 19, 26, 9, 32, 59, 52, 47,
    7, 19, 26, 9, 33, 59, 52, 46, 1, 18, 27, 15, 39, 60, 51, 40, 1, 18, 27, 15, 38, 58, 51, 41,
    7, 19, 26, 9, 32, 59, 50, 47, 7, 19, 26, 9, 33, 59, 50, 46, 1, 18, 27, 15, 39, 58, 51, 40,
    5, 16, 29, 12, 36, 61, 53, 45, 5, 17, 28, 12, 36, 61, 53, 45, 4, 21, 24, 13, 37, 61, 53, 44,
    4, 20, 25, 13, 37, 61, 53, 44, 5, 16, 29, 12, 36, 60, 53, 41, 5, 17, 28, 12, 32, 61, 52, 45,
    4, 21, 24, 13, 33, 61, 52, 44, 4, 20, 25, 13, 37, 60, 53, 40, 1, 16, 29, 14, 36, 60, 53, 41,
    7, 17, 28, 8, 32, 61, 52, 45, 6, 21, 24, 9, 33, 61, 52, 44, 0, 20, 25, 15, 37, 60, 53, 40,
    1, 16, 29, 14, 38, 60, 51, 41, 7, 17, 28, 8, 32, 59, 52, 47, 6, 21, 24, 9, 33, 59, 52, 46,
    0, 20, 25, 15, 39, 60, 51, 40, 1, 16, 27, 14, 38, 60, 51, 41, 7, 17, 26, 8, 32, 59, 52, 47,
    6, 19, 24, 9, 33, 59, 52, 46, 0, 18, 25, 15, 39, 60, 51, 40, 1, 18, 27, 14, 38, 60, 51, 41,
    7, 19, 26, 8, 32, 59, 52, 47, 6, 19, 26, 9, 33, 59, 52, 46, 0, 18, 27, 15, 39, 60, 51, 40,
    1, 18, 27, 14, 38, 58, 51, 41, 7, 19, 26, 8, 32, 59, 50, 47, 6, 19, 26, 9, 33, 59, 50, 46,
    0, 18, 27, 15, 39, 58, 51, 40, 5, 16, 29, 12, 36, 57, 55, 45, 5, 17, 28, 12, 36, 57, 55, 45,
    4, 21, 24, 13, 37, 63, 49, 44, 4, 20, 25, 13, 37, 63, 49, 44, 5, 16, 29, 12, 36, 56, 55, 41,
    5, 17, 28, 12, 32, 57, 54, 45, 4, 21, 24, 13, 33, 63, 48, 44, 4, 20, 25, 13, 37, 62, 49, 40,
    1, 16, 29, 14, 36, 56, 55, 41, 7, 17, 28, 8, 32, 57, 54, 45, 6, 21, 24, 9, 33, 63, 48, 44,
    0, 20, 25, 15, 37, 62, 49, 40, 1, 16, 29, 14, 38, 56, 55, 41, 7, 17, 28, 8, 32, 57, 54, 47,
    6, 21, 24, 9, 33, 63, 48, 46, 0, 20, 25, 15, 39, 62, 49, 40, 1, 16, 29, 14, 38, 56, 51, 41,
    7, 17, 28, 8, 32, 59, 54, 47, 6, 21, 24, 9, 33, 59, 48, 46, 0, 20, 25, 15, 39, 62, 51, 40,
    1, 16, 27, 14, 38, 56, 51, 41, 7, 17, 26, 8, 32, 59, 54, 47, 6, 19, 24, 9, 33, 59, 48, 46,
    0, 18, 25, 15, 39, 62, 51, 40, 3, 16, 31, 12, 36, 57, 55, 45, 3, 17, 30, 12, 36, 57, 55, 45,
    4, 23, 24, 11, 37, 63, 49, 44, 4, 22, 25, 11, 37, 63, 49, 44, 3, 16, 31, 12, 36, 56, 55, 41,
    3, 17, 30, 12, 32, 57, 54, 45, 4, 23, 24, 11, 33, 63, 48, 44, 4, 22, 25, 11, 37, 62, 49, 40,
    3, 16, 31, 14, 36, 56, 55, 41, 3, 17, 30, 8, 32, 57, 54, 45, 6, 23, 24, 11, 33, 63, 48, 44,
    0, 22, 25, 11, 37, 62, 49, 40, 1, 16, 31, 14, 36, 56, 55, 41, 7, 17, 30, 8, 32, 57, 54, 45,
    6, 23, 24, 9, 33, 63, 48, 44, 0, 22, 25, 15, 37, 62, 49, 40, 1, 16, 31, 14, 38, 56, 55, 41,
    7, 17, 30, 8, 32, 57, 54, 47, 6, 23, 24, 9, 33, 63, 48, 46, 0, 22, 25, 15, 39, 62, 49, 40,
    3, 16, 31, 12, 34, 57, 55, 43, 3, 17, 30, 12, 34, 57, 55, 43, 4, 23, 24, 11, 35, 63, 49, 42,
    4, 22, 25, 11, 35, 63, 49, 42, 3, 16, 31, 12, 34, 56, 55, 43, 3, 17, 30, 12, 34, 57, 54, 43,
    4, 23, 24, 11, 35, 63, 48, 42, 4, 22, 25, 11, 35, 62, 49, 42, 3, 16, 31, 12, 34, 56, 55, 41,
    3, 17, 30, 12, 32, 57, 54, 43, 4, 23, 24, 11, 33, 63, 48, 42, 4, 22, 25, 11, 35, 62, 49, 40,
    3, 16, 31, 14, 34, 56, 55, 41, 3, 17, 30, 8, 32, 57, 54, 43, 6, 23, 24, 11, 33, 63, 48, 42,
    0, 22, 25, 11, 35, 62, 49, 40, 3, 16, 31, 10, 34, 57, 55, 43, 3, 17, 30, 10, 34, 57, 55, 43,
    2, 23, 24, 11, 35, 63, 49, 42, 2, 22, 25, 11, 35, 63, 49, 42, 3, 16, 31, 10, 34, 56, 55, 43,
    3, 17, 30, 10, 34, 57, 54, 43, 2, 23, 24, 11, 35, 63, 48, 42, 2, 22, 25, 11, 35, 62, 49, 42]

def vtbRegion14400 : List Nat :=
  [0, 32, 64, 96, 128, 160, 192, 224, 256, 288, 320, 352, 384, 416, 448, 480,
    512, 544, 576, 608, 640, 672, 704, 736, 768, 800, 832, 864, 896, 928, 992, 1024,
    1056, 1088, 1120, 1152, 1184, 1248, 1280, 1280, 1312, 1344, 1376, 1408, 1472, 1504, 1280, 1280,
    1536, 1568, 1600, 1664, 1696, 1504, 1504, 1280, 1728, 1760, 1792, 1824, 1696, 1696, 1504, 1504,
    0, 32, 64, 96, 128, 160, 192, 224, 256, 288, 320, 352, 384, 416, 448, 480,
    512, 544, 576, 608, 640, 672, 704, 736, 768, 800, 832, 864, 896, 928, 960, 1024,
    1056, 1088, 1120, 1152, 1184, 1216, 1280, 1280, 1312, 1344, 1376, 1408, 1440, 1504, 1504, 1280,
    1536, 1568, 1600, 1632, 1696, 1696, 1504, 1504, 1728, 1760, 1792, 1824, 1824, 1696, 1696, 1504]

def vtbBound14400 : List Nat :=
  [14, 38, 62, 30, 70, 126, 110, 94, 14, 46, 54, 30, 70, 126, 110, 94, 14, 46, 54, 30, 78, 126, 110, 86,
    14, 38, 62, 30, 78, 126, 110, 86, 14, 38, 62, 30, 70, 118, 110, 90, 14, 46, 54, 30, 66, 126, 102, 94,
    14, 46, 54, 30, 74, 126, 102, 86, 14, 38, 62, 30, 78, 118, 110, 82, 10, 38, 62, 28, 70, 118, 110, 90,
    12, 46, 54, 26, 66, 126, 102, 94, 12, 46, 54, 26, 74, 126, 102, 86, 10, 38, 62, 28, 78, 118, 110, 82,
    10, 38, 62, 28, 68, 118, 111, 90, 12, 46, 54, 26, 66, 127, 102, 92, 12, 46, 54, 26, 74, 127, 102, 84,
    10, 38, 62, 28, 76, 118, 111, 82, 10, 39, 63, 28, 68, 118, 111, 90, 12, 47, 55, 26, 66, 127, 102, 92,
    12, 47, 55, 26, 74, 127, 102, 84, 10, 39, 63, 28, 76, 118, 111, 82, 10, 39, 63, 28, 68, 119, 111, 89,
    12, 47, 55, 26, 65, 127, 103, 92, 12, 47, 55, 26, 73, 127, 103, 84, 10, 39, 63, 28, 76, 119, 111, 81,
    9, 39, 63, 24, 68, 119, 111, 89, 8, 47, 55, 25, 65, 127, 103, 92, 8, 47, 55, 25, 73, 127, 103, 84,
    9, 39, 63, 24, 76, 119, 111, 81, 9, 39, 63, 24, 64, 119, 111, 89, 8, 47, 55, 25, 65, 127, 103, 88,
    8, 47, 55, 25, 73, 127, 103, 80, 9, 39, 63, 24, 72, 119, 111, 81, 14, 34, 62, 22, 70, 126, 110, 94,
    14, 42, 54, 22, 70, 126, 110, 94, 6, 46, 50, 30, 78, 126, 110, 86, 6, 38, 58, 30, 78, 126, 110, 86,
    14, 34, 62, 22, 70, 118, 110, 90, 14, 42, 54, 22, 66, 126, 102, 94, 6, 46, 50, 30, 74, 126, 102, 86,
    6, 38, 58, 30, 78, 118, 110, 82, 10, 34, 62, 20, 70, 118, 110, 90, 12, 42, 54, 18, 66, 126, 102, 94,
    4, 46, 50, 26, 74, 126, 102, 86, 2, 38, 58, 28, 78, 118, 110, 82, 10, 34, 62, 20, 68, 118, 111, 90,
    12, 42, 54, 18, 66, 127, 102, 92, 4, 46, 50, 26, 74, 127, 102, 84, 2, 38, 58, 28, 76, 118, 111, 82,
    10, 35, 63, 20, 68, 118, 111, 90, 12, 43, 55, 18, 66, 127, 102, 92, 4, 47, 51, 26, 74, 127, 102, 84,
    2, 39, 59, 28, 76, 118, 111, 82, 10, 35, 63, 20, 68, 119, 111, 89, 12, 43, 55, 18, 65, 127, 103, 92,
    4, 47, 51, 26, 73, 127, 103, 84, 2, 39, 59, 28, 76, 119, 111, 81, 9, 35, 63, 16, 68, 119, 111, 89,
    8, 43, 55, 17, 65, 127, 103, 92, 0, 47, 51, 25, 73, 127, 103, 84, 1, 39, 59, 24, 76, 119, 111, 81,
    9, 35, 63, 16, 64, 119, 111, 89, 8, 43, 55, 17, 65, 127, 103, 88, 0, 47, 51, 25, 73, 127, 103, 80,
    1, 39, 59, 24, 72, 119, 111, 81, 14, 34, 62, 22, 70, 122, 108, 94, 14, 42, 54, 22, 70, 122, 108, 94,
    6, 46, 50, 30, 78, 124, 106, 86, 6, 38, 58, 30, 78, 124, 106, 86, 14, 34, 62, 22, 70, 114, 108, 90,
    14, 42, 54, 22, 66, 122, 100, 94, 6, 46, 50, 30, 74, 124, 98, 86, 6, 38, 58, 30, 78, 116, 106, 82,
    10, 34, 62, 20, 70, 114, 108, 90, 12, 42, 54, 18, 66, 122, 100, 94, 4, 46, 50, 26, 74, 124, 98, 86,
    2, 38, 58, 28, 78, 116, 106, 82, 10, 34, 62, 20, 68, 114, 109, 90, 12, 42, 54, 18, 66, 123, 100, 92,
    4, 46, 50, 26, 74, 125, 98, 84, 2, 38, 58, 28, 76, 116, 107, 82, 10, 35, 63, 20, 68, 114, 109, 90,
    12, 43, 55, 18, 66, 123, 100, 92, 4, 47, 51, 26, 74, 125, 98, 84, 2, 39, 59, 28, 76, 116, 107, 82,
    10, 35, 63, 20, 68, 115, 109, 89, 12, 43, 55, 18, 65, 123, 101, 92, 4, 47, 51, 26, 73, 125, 99, 84,
    2, 39, 59, 28, 76, 117, 107, 81, 9, 35, 63, 16, 68, 115, 109, 89, 8, 43, 55, 17, 65, 123, 101, 92,
    0, 47, 51, 25, 73, 125, 99, 84, 1, 39, 59, 24, 76, 117, 107, 81, 9, 35, 63, 16, 64, 115, 109, 89,
    8, 43, 55, 17, 65, 123, 101, 88, 0, 47, 51, 25, 73, 125, 99, 80, 1, 39, 59, 24, 72, 117, 107, 81,
    15, 34, 60, 22, 70, 122, 108, 94, 15, 42, 52, 22, 70, 122, 108, 94, 6, 44, 50, 31, 78, 124, 106, 86,
    6, 36, 58, 31, 78, 124, 106, 86, 15, 34, 60, 22, 70, 114, 108, 90, 15, 42, 52, 22, 66, 122, 100, 94,
    6, 44, 50, 31, 74, 124, 98, 86, 6, 36, 58, 31, 78, 116, 106, 82, 11, 34, 60, 20, 70, 114, 108, 90,
    13, 42, 52, 18, 66, 122, 100, 94, 4, 44, 50, 27, 74, 124, 98, 86, 2, 36, 58, 29, 78, 116, 106, 82,
    11, 34, 60, 20, 68, 114, 109, 90, 13, 42, 52, 18, 66, 123, 100, 92, 4, 44, 50, 27, 74, 125, 98, 84,
    2, 36, 58, 29, 76, 116, 107, 82, 11, 35, 61, 20, 68, 114, 109, 90, 13, 43, 53, 18, 66, 123, 100, 92,
    4, 45, 51, 27, 74, 125, 98, 84, 2, 37, 59, 29, 76, 116, 107, 82, 11, 35, 61, 20, 68, 115, 109, 89,
    13, 43, 53, 18, 65, 123, 101, 92, 4, 45, 51, 27, 73, 125, 99, 84, 2, 37, 59, 29, 76, 117, 107, 81,
    11, 35, 61, 16, 68, 115, 109, 89, 13, 43, 53, 17, 65, 123, 101, 92, 0, 45, 51, 27, 73, 125, 99, 84,
    1, 37, 59, 29, 76, 117, 107, 81, 9, 35, 61, 16, 68, 115, 109, 89, 8, 43, 53, 17, 65, 123, 101, 92,
    0, 45, 51, 25, 73, 125, 99, 84, 1, 37, 59, 24, 76, 117, 107, 81, 9, 35, 61, 16, 64, 115, 109, 89,
    8, 43, 53, 17, 65, 123, 101, 88, 0, 45, 51, 25, 73, 125, 99, 80, 1, 37, 59, 24, 72, 117, 107, 81,
    15, 34, 60, 22, 71, 122, 108, 95, 15, 42, 52, 22, 71, 122, 108, 95, 6, 44, 50, 31, 79, 124, 106, 87,
    6, 36, 58, 31, 79, 124, 106, 87, 15, 34, 60, 22, 71, 114, 108, 91, 15, 42, 52, 22, 67, 122, 100, 95,
    6, 44, 50, 31, 75, 124, 98, 87, 6, 36, 58, 31, 79, 116, 106, 83, 11, 34, 60, 20, 71, 114, 108, 91,
    13, 42, 52, 18, 67, 122, 100, 95, 4, 44, 50, 27, 75, 124, 98, 87, 2, 36, 58, 29, 79, 116, 106, 83,
    11, 34, 60, 20, 69, 114, 109, 91, 13, 42, 52, 18, 67, 123, 100, 93, 4, 44, 50, 27, 75, 125, 98, 85,
    2, 36, 58, 29, 77, 116, 107, 83, 11, 35, 61, 20, 69, 114, 109, 91, 13, 43, 53, 18, 67, 123, 100, 93,
    4, 45, 51, 27, 75, 125, 98, 85, 2, 37, 59, 29, 77, 116, 107, 83, 11, 35, 61, 20, 69, 115, 109, 91,
    13, 43, 53, 18, 67, 123, 101, 93, 4, 45, 51, 27, 75, 125, 99, 85, 2, 37, 59, 29, 77, 117, 107, 83,
    11, 35, 61, 20, 69, 115, 109, 89, 13, 43, 53, 18, 65, 123, 101, 93, 4, 45, 51, 27, 73, 125, 99, 85,
    2, 37, 59, 29, 77, 117, 107, 81, 11, 35, 61, 16, 69, 115, 109, 89, 13, 43, 53, 17, 65, 123, 101, 93,
    0, 45, 51, 27, 73, 125, 99, 85, 1, 37, 59, 29, 77, 117, 107, 81, 15, 33, 60, 23, 71, 122, 108, 95,
    15, 41, 52, 23, 71, 122, 108, 95, 7, 44, 49, 31, 79, 124, 106, 87, 7, 36, 57, 31, 79, 124, 106, 87,
    15, 33, 60, 23, 71, 114, 108, 91, 15, 41, 52, 23, 67, 122, 100, 95, 7, 44, 49, 31, 75, 124, 98, 87,
    7, 36, 57, 31, 79, 116, 106, 83, 11, 33, 60, 21, 71, 114, 108, 91, 13, 41, 52, 19, 67, 122, 100, 95,
    5, 44, 49, 27, 75, 124, 98, 87, 3, 36, 57, 29, 79, 116, 106, 83, 11, 33, 60, 21, 69, 114, 109, 91,
    13, 41, 52, 19, 67, 123, 100, 93, 5, 44, 49, 27, 75, 125, 98, 85, 3, 36, 57, 29, 77, 116, 107, 83,
    11, 33, 61, 21, 69, 114, 109, 91, 13, 41, 53, 19, 67, 123, 100, 93, 5, 45, 49, 27, 75, 125, 98, 85,
    3, 37, 57, 29, 77, 116, 107, 83, 11, 35, 61, 21, 69, 114, 109, 91, 13, 43, 53, 19, 67, 123, 100, 93,
    5, 45, 51, 27, 75, 125, 98, 85, 3, 37, 59, 29, 77, 116, 107, 83, 11, 35, 61, 21, 69, 115, 109, 91,
    13, 43, 53, 19, 67, 123, 101, 93, 5, 45, 51, 27, 75, 125, 99, 85, 3, 37, 59, 29, 77, 117, 107, 83,
    15, 33, 60, 23, 71, 121, 104, 95, 15, 41, 52, 23, 71, 121, 104, 95, 7, 44, 49, 31, 79, 120, 105, 87,
    7, 36, 57, 31, 79, 120, 105, 87, 15, 33, 60, 23, 71, 113, 104, 91, 15, 41, 52, 23, 67, 121, 96, 95,
    7, 44, 49, 31, 75, 120, 97, 87, 7, 36, 57, 31, 79, 112, 105, 83, 11, 33, 60, 21, 71, 113, 104, 91,
    13, 41, 52, 19, 67, 121, 96, 95, 5, 44, 49, 27, 75, 120, 97, 87, 3, 36, 57, 29, 79, 112, 105, 83,
    11, 33, 60, 21, 69, 113, 104, 91, 13, 41, 52, 19, 67, 121, 96, 93, 5, 44, 49, 27, 75, 120, 97, 85,
    3, 36, 57, 29, 77, 112, 105, 83, 11, 33, 60, 21, 69, 113, 109, 91, 13, 41, 52, 19, 67, 123, 96, 93,
    5, 44, 49, 27, 75, 125, 97, 85, 3, 36, 57, 29, 77, 112, 107, 83, 11, 33, 61, 21, 69, 113, 109, 91,
    13, 41, 53, 19, 67, 123, 96, 93, 5, 45, 49, 27, 75, 125, 97, 85, 3, 37, 57, 29, 77, 112, 107, 83,
    15, 33, 56, 23, 71, 121, 104, 95, 15, 41, 48, 23, 71, 121, 104, 95, 7, 40, 49, 31, 79, 120, 105, 87,
    7, 32, 57, 31, 79, 120, 105, 87, 15, 33, 56, 23, 71, 113, 104, 91, 15, 41, 48, 23, 67, 121, 96, 95,
    7, 40, 49, 31, 75, 120, 97, 87, 7, 32, 57, 31, 79, 112, 105, 83, 11, 33, 56, 21, 71, 113, 104, 91,
    13, 41, 48, 19, 67, 121, 96, 95, 5, 40, 49, 27, 75, 120, 97, 87, 3, 32, 57, 29, 79, 112, 105, 83,
    11, 33, 56, 21, 69, 113, 104, 91, 13, 41, 48, 19, 67, 121, 96, 93, 5, 40, 49, 27, 75, 120, 97, 85,
    3, 32, 57, 29, 77, 112, 105, 83]

end Slmodem
