/-!
# Character ranges

Beyond ASCII, the classes of characters and the case maps are data of the Unicode standard. They
are kept here as runs of code points with a fixed step, so that alternating upper and lower case
letters take one run.
-/

namespace CommandFiles.Text

/-- The code points `first`, `first + step`, … up to `last`. -/
structure Run where
  first : Nat
  last : Nat
  step : Nat

/-- A run whose members are mapped by adding `shift`. -/
structure ShiftedRun where
  first : Nat
  last : Nat
  step : Nat
  shift : Int

/-- Whether a code point is in the run. -/
def Run.contains (r : Run) (code : Nat) : Bool :=
  r.first ≤ code && code ≤ r.last && (code - r.first) % r.step == 0

/-- Whether a code point is in the run. -/
def ShiftedRun.contains (r : ShiftedRun) (code : Nat) : Bool :=
  r.first ≤ code && code ≤ r.last && (code - r.first) % r.step == 0

/-- Whether a code point is in one of the runs. -/
def inRuns (runs : List Run) (code : Nat) : Bool :=
  runs.any (·.contains code)

/-- The shifted code point, if one of the runs holds it. -/
def shiftIn? (runs : List ShiftedRun) (code : Nat) : Option Nat :=
  (runs.find? (·.contains code)).map fun r => ((code : Int) + r.shift).toNat

/-- Characters beyond ASCII that may begin an identifier. -/
def identifierStarts : List Run :=
  [.mk 170 170 1, .mk 181 181 1, .mk 186 186 1, .mk 192 214 1, .mk 216 246 1, .mk 248 705 1,
   .mk 710 721 1, .mk 736 740 1, .mk 748 750 2, .mk 880 884 1, .mk 886 887 1, .mk 890 893 1,
   .mk 895 895 1, .mk 902 902 1, .mk 904 906 1, .mk 908 908 1, .mk 910 929 1, .mk 931 1013 1,
   .mk 1015 1153 1, .mk 1162 1327 1, .mk 1329 1366 1, .mk 1369 1369 1, .mk 1376 1416 1,
   .mk 1488 1514 1, .mk 1519 1522 1, .mk 1568 1610 1, .mk 1646 1647 1, .mk 1649 1747 1,
   .mk 1749 1749 1, .mk 1765 1766 1, .mk 1774 1775 1, .mk 1786 1788 1, .mk 1791 1791 1,
   .mk 1808 1808 1, .mk 1810 1839 1, .mk 1869 1957 1, .mk 1969 1969 1, .mk 1994 2026 1,
   .mk 2036 2037 1, .mk 2042 2042 1, .mk 2048 2069 1, .mk 2074 2074 1, .mk 2084 2084 1,
   .mk 2088 2088 1, .mk 2112 2136 1, .mk 2144 2154 1, .mk 2160 2183 1, .mk 2185 2190 1,
   .mk 2208 2249 1, .mk 2308 2361 1, .mk 2365 2365 1, .mk 2384 2384 1, .mk 2392 2401 1,
   .mk 2417 2432 1, .mk 2437 2444 1, .mk 2447 2448 1, .mk 2451 2472 1, .mk 2474 2480 1,
   .mk 2482 2482 1, .mk 2486 2489 1, .mk 2493 2493 1, .mk 2510 2510 1, .mk 2524 2525 1,
   .mk 2527 2529 1, .mk 2544 2545 1, .mk 2556 2556 1, .mk 2565 2570 1, .mk 2575 2576 1,
   .mk 2579 2600 1, .mk 2602 2608 1, .mk 2610 2611 1, .mk 2613 2614 1, .mk 2616 2617 1,
   .mk 2649 2652 1, .mk 2654 2654 1, .mk 2674 2676 1, .mk 2693 2701 1, .mk 2703 2705 1,
   .mk 2707 2728 1, .mk 2730 2736 1, .mk 2738 2739 1, .mk 2741 2745 1, .mk 2749 2749 1,
   .mk 2768 2768 1, .mk 2784 2785 1, .mk 2809 2809 1, .mk 2821 2828 1, .mk 2831 2832 1,
   .mk 2835 2856 1, .mk 2858 2864 1, .mk 2866 2867 1, .mk 2869 2873 1, .mk 2877 2877 1,
   .mk 2908 2909 1, .mk 2911 2913 1, .mk 2929 2929 1, .mk 2947 2947 1, .mk 2949 2954 1,
   .mk 2958 2960 1, .mk 2962 2965 1, .mk 2969 2970 1, .mk 2972 2972 1, .mk 2974 2975 1,
   .mk 2979 2980 1, .mk 2984 2986 1, .mk 2990 3001 1, .mk 3024 3024 1, .mk 3077 3084 1,
   .mk 3086 3088 1, .mk 3090 3112 1, .mk 3114 3129 1, .mk 3133 3133 1, .mk 3160 3162 1,
   .mk 3165 3165 1, .mk 3168 3169 1, .mk 3200 3200 1, .mk 3205 3212 1, .mk 3214 3216 1,
   .mk 3218 3240 1, .mk 3242 3251 1, .mk 3253 3257 1, .mk 3261 3261 1, .mk 3293 3294 1,
   .mk 3296 3297 1, .mk 3313 3314 1, .mk 3332 3340 1, .mk 3342 3344 1, .mk 3346 3386 1,
   .mk 3389 3389 1, .mk 3406 3406 1, .mk 3412 3414 1, .mk 3423 3425 1, .mk 3450 3455 1,
   .mk 3461 3478 1, .mk 3482 3505 1, .mk 3507 3515 1, .mk 3517 3517 1, .mk 3520 3526 1,
   .mk 3585 3632 1, .mk 3634 3635 1, .mk 3648 3654 1, .mk 3713 3714 1, .mk 3716 3716 1,
   .mk 3718 3722 1, .mk 3724 3747 1, .mk 3749 3749 1, .mk 3751 3760 1, .mk 3762 3763 1,
   .mk 3773 3773 1, .mk 3776 3780 1, .mk 3782 3782 1, .mk 3804 3807 1, .mk 3840 3840 1,
   .mk 3904 3911 1, .mk 3913 3948 1, .mk 3976 3980 1, .mk 4096 4138 1, .mk 4159 4159 1,
   .mk 4176 4181 1, .mk 4186 4189 1, .mk 4193 4193 1, .mk 4197 4198 1, .mk 4206 4208 1,
   .mk 4213 4225 1, .mk 4238 4238 1, .mk 4256 4293 1, .mk 4295 4295 1, .mk 4301 4301 1,
   .mk 4304 4346 1, .mk 4348 4680 1, .mk 4682 4685 1, .mk 4688 4694 1, .mk 4696 4696 1,
   .mk 4698 4701 1, .mk 4704 4744 1, .mk 4746 4749 1, .mk 4752 4784 1, .mk 4786 4789 1,
   .mk 4792 4798 1, .mk 4800 4800 1, .mk 4802 4805 1, .mk 4808 4822 1, .mk 4824 4880 1,
   .mk 4882 4885 1, .mk 4888 4954 1, .mk 4992 5007 1, .mk 5024 5109 1, .mk 5112 5117 1,
   .mk 5121 5740 1, .mk 5743 5759 1, .mk 5761 5786 1, .mk 5792 5866 1, .mk 5870 5880 1,
   .mk 5888 5905 1, .mk 5919 5937 1, .mk 5952 5969 1, .mk 5984 5996 1, .mk 5998 6000 1,
   .mk 6016 6067 1, .mk 6103 6103 1, .mk 6108 6108 1, .mk 6176 6264 1, .mk 6272 6312 1,
   .mk 6314 6314 1, .mk 6320 6389 1, .mk 6400 6430 1, .mk 6480 6509 1, .mk 6512 6516 1,
   .mk 6528 6571 1, .mk 6576 6601 1, .mk 6656 6678 1, .mk 6688 6740 1, .mk 6823 6823 1,
   .mk 6917 6963 1, .mk 6981 6988 1, .mk 7043 7072 1, .mk 7086 7087 1, .mk 7098 7141 1,
   .mk 7168 7203 1, .mk 7245 7247 1, .mk 7258 7293 1, .mk 7296 7304 1, .mk 7312 7354 1,
   .mk 7357 7359 1, .mk 7401 7404 1, .mk 7406 7411 1, .mk 7413 7414 1, .mk 7418 7418 1,
   .mk 7424 7615 1, .mk 7680 7957 1, .mk 7960 7965 1, .mk 7968 8005 1, .mk 8008 8013 1,
   .mk 8016 8023 1, .mk 8025 8029 2, .mk 8031 8061 1, .mk 8064 8116 1, .mk 8118 8124 1,
   .mk 8126 8126 1, .mk 8130 8132 1, .mk 8134 8140 1, .mk 8144 8147 1, .mk 8150 8155 1,
   .mk 8160 8172 1, .mk 8178 8180 1, .mk 8182 8188 1, .mk 8305 8305 1, .mk 8319 8319 1,
   .mk 8336 8348 1, .mk 8450 8450 1, .mk 8455 8455 1, .mk 8458 8467 1, .mk 8469 8469 1,
   .mk 8472 8477 1, .mk 8484 8488 2, .mk 8490 8505 1, .mk 8508 8511 1, .mk 8517 8521 1,
   .mk 8526 8526 1, .mk 8544 8584 1, .mk 11264 11492 1, .mk 11499 11502 1, .mk 11506 11507 1,
   .mk 11520 11557 1, .mk 11559 11559 1, .mk 11565 11565 1, .mk 11568 11623 1, .mk 11631 11631 1,
   .mk 11648 11670 1, .mk 11680 11686 1, .mk 11688 11694 1, .mk 11696 11702 1, .mk 11704 11710 1,
   .mk 11712 11718 1, .mk 11720 11726 1, .mk 11728 11734 1, .mk 11736 11742 1, .mk 12293 12295 1,
   .mk 12321 12329 1, .mk 12337 12341 1, .mk 12344 12348 1, .mk 12353 12438 1, .mk 12443 12447 1,
   .mk 12449 12538 1, .mk 12540 12543 1, .mk 12549 12591 1, .mk 12593 12686 1, .mk 12704 12735 1,
   .mk 12784 12799 1, .mk 13312 19903 1, .mk 19968 42124 1, .mk 42192 42237 1, .mk 42240 42508 1,
   .mk 42512 42527 1, .mk 42538 42539 1, .mk 42560 42606 1, .mk 42623 42653 1, .mk 42656 42735 1,
   .mk 42775 42783 1, .mk 42786 42888 1, .mk 42891 42954 1, .mk 42960 42961 1, .mk 42963 42963 1,
   .mk 42965 42969 1, .mk 42994 43009 1, .mk 43011 43013 1, .mk 43015 43018 1, .mk 43020 43042 1,
   .mk 43072 43123 1, .mk 43138 43187 1, .mk 43250 43255 1, .mk 43259 43259 1, .mk 43261 43262 1,
   .mk 43274 43301 1, .mk 43312 43334 1, .mk 43360 43388 1, .mk 43396 43442 1, .mk 43471 43471 1,
   .mk 43488 43492 1, .mk 43494 43503 1, .mk 43514 43518 1, .mk 43520 43560 1, .mk 43584 43586 1,
   .mk 43588 43595 1, .mk 43616 43638 1, .mk 43642 43642 1, .mk 43646 43695 1, .mk 43697 43697 1,
   .mk 43701 43702 1, .mk 43705 43709 1, .mk 43712 43714 2, .mk 43739 43741 1, .mk 43744 43754 1,
   .mk 43762 43764 1, .mk 43777 43782 1, .mk 43785 43790 1, .mk 43793 43798 1, .mk 43808 43814 1,
   .mk 43816 43822 1, .mk 43824 43866 1, .mk 43868 43881 1, .mk 43888 44002 1, .mk 44032 55203 1,
   .mk 55216 55238 1, .mk 55243 55291 1, .mk 63744 64109 1, .mk 64112 64217 1, .mk 64256 64262 1,
   .mk 64275 64279 1, .mk 64285 64285 1, .mk 64287 64296 1, .mk 64298 64310 1, .mk 64312 64316 1,
   .mk 64318 64318 1, .mk 64320 64321 1, .mk 64323 64324 1, .mk 64326 64433 1, .mk 64467 64829 1,
   .mk 64848 64911 1, .mk 64914 64967 1, .mk 65008 65019 1, .mk 65136 65140 1, .mk 65142 65276 1,
   .mk 65313 65338 1, .mk 65345 65370 1, .mk 65382 65470 1, .mk 65474 65479 1, .mk 65482 65487 1,
   .mk 65490 65495 1, .mk 65498 65500 1, .mk 65536 65547 1, .mk 65549 65574 1, .mk 65576 65594 1,
   .mk 65596 65597 1, .mk 65599 65613 1, .mk 65616 65629 1, .mk 65664 65786 1, .mk 65856 65908 1,
   .mk 66176 66204 1, .mk 66208 66256 1, .mk 66304 66335 1, .mk 66349 66378 1, .mk 66384 66421 1,
   .mk 66432 66461 1, .mk 66464 66499 1, .mk 66504 66511 1, .mk 66513 66517 1, .mk 66560 66717 1,
   .mk 66736 66771 1, .mk 66776 66811 1, .mk 66816 66855 1, .mk 66864 66915 1, .mk 66928 66938 1,
   .mk 66940 66954 1, .mk 66956 66962 1, .mk 66964 66965 1, .mk 66967 66977 1, .mk 66979 66993 1,
   .mk 66995 67001 1, .mk 67003 67004 1, .mk 67072 67382 1, .mk 67392 67413 1, .mk 67424 67431 1,
   .mk 67456 67461 1, .mk 67463 67504 1, .mk 67506 67514 1, .mk 67584 67589 1, .mk 67592 67592 1,
   .mk 67594 67637 1, .mk 67639 67640 1, .mk 67644 67644 1, .mk 67647 67669 1, .mk 67680 67702 1,
   .mk 67712 67742 1, .mk 67808 67826 1, .mk 67828 67829 1, .mk 67840 67861 1, .mk 67872 67897 1,
   .mk 67968 68023 1, .mk 68030 68031 1, .mk 68096 68096 1, .mk 68112 68115 1, .mk 68117 68119 1,
   .mk 68121 68149 1, .mk 68192 68220 1, .mk 68224 68252 1, .mk 68288 68295 1, .mk 68297 68324 1,
   .mk 68352 68405 1, .mk 68416 68437 1, .mk 68448 68466 1, .mk 68480 68497 1, .mk 68608 68680 1,
   .mk 68736 68786 1, .mk 68800 68850 1, .mk 68864 68899 1, .mk 69248 69289 1, .mk 69296 69297 1,
   .mk 69376 69404 1, .mk 69415 69415 1, .mk 69424 69445 1, .mk 69488 69505 1, .mk 69552 69572 1,
   .mk 69600 69622 1, .mk 69635 69687 1, .mk 69745 69746 1, .mk 69749 69749 1, .mk 69763 69807 1,
   .mk 69840 69864 1, .mk 69891 69926 1, .mk 69956 69956 1, .mk 69959 69959 1, .mk 69968 70002 1,
   .mk 70006 70006 1, .mk 70019 70066 1, .mk 70081 70084 1, .mk 70106 70108 2, .mk 70144 70161 1,
   .mk 70163 70187 1, .mk 70272 70278 1, .mk 70280 70280 1, .mk 70282 70285 1, .mk 70287 70301 1,
   .mk 70303 70312 1, .mk 70320 70366 1, .mk 70405 70412 1, .mk 70415 70416 1, .mk 70419 70440 1,
   .mk 70442 70448 1, .mk 70450 70451 1, .mk 70453 70457 1, .mk 70461 70461 1, .mk 70480 70480 1,
   .mk 70493 70497 1, .mk 70656 70708 1, .mk 70727 70730 1, .mk 70751 70753 1, .mk 70784 70831 1,
   .mk 70852 70853 1, .mk 70855 70855 1, .mk 71040 71086 1, .mk 71128 71131 1, .mk 71168 71215 1,
   .mk 71236 71236 1, .mk 71296 71338 1, .mk 71352 71352 1, .mk 71424 71450 1, .mk 71488 71494 1,
   .mk 71680 71723 1, .mk 71840 71903 1, .mk 71935 71942 1, .mk 71945 71945 1, .mk 71948 71955 1,
   .mk 71957 71958 1, .mk 71960 71983 1, .mk 71999 72001 2, .mk 72096 72103 1, .mk 72106 72144 1,
   .mk 72161 72163 2, .mk 72192 72192 1, .mk 72203 72242 1, .mk 72250 72250 1, .mk 72272 72272 1,
   .mk 72284 72329 1, .mk 72349 72349 1, .mk 72368 72440 1, .mk 72704 72712 1, .mk 72714 72750 1,
   .mk 72768 72768 1, .mk 72818 72847 1, .mk 72960 72966 1, .mk 72968 72969 1, .mk 72971 73008 1,
   .mk 73030 73030 1, .mk 73056 73061 1, .mk 73063 73064 1, .mk 73066 73097 1, .mk 73112 73112 1,
   .mk 73440 73458 1, .mk 73648 73648 1, .mk 73728 74649 1, .mk 74752 74862 1, .mk 74880 75075 1,
   .mk 77712 77808 1, .mk 77824 78894 1, .mk 82944 83526 1, .mk 92160 92728 1, .mk 92736 92766 1,
   .mk 92784 92862 1, .mk 92880 92909 1, .mk 92928 92975 1, .mk 92992 92995 1, .mk 93027 93047 1,
   .mk 93053 93071 1, .mk 93760 93823 1, .mk 93952 94026 1, .mk 94032 94032 1, .mk 94099 94111 1,
   .mk 94176 94177 1, .mk 94179 94179 1, .mk 94208 100343 1, .mk 100352 101589 1,
   .mk 101632 101640 1, .mk 110576 110579 1, .mk 110581 110587 1, .mk 110589 110590 1,
   .mk 110592 110882 1, .mk 110928 110930 1, .mk 110948 110951 1, .mk 110960 111355 1,
   .mk 113664 113770 1, .mk 113776 113788 1, .mk 113792 113800 1, .mk 113808 113817 1,
   .mk 119808 119892 1, .mk 119894 119964 1, .mk 119966 119967 1, .mk 119970 119970 1,
   .mk 119973 119974 1, .mk 119977 119980 1, .mk 119982 119993 1, .mk 119995 119995 1,
   .mk 119997 120003 1, .mk 120005 120069 1, .mk 120071 120074 1, .mk 120077 120084 1,
   .mk 120086 120092 1, .mk 120094 120121 1, .mk 120123 120126 1, .mk 120128 120132 1,
   .mk 120134 120134 1, .mk 120138 120144 1, .mk 120146 120485 1, .mk 120488 120512 1,
   .mk 120514 120538 1, .mk 120540 120570 1, .mk 120572 120596 1, .mk 120598 120628 1,
   .mk 120630 120654 1, .mk 120656 120686 1, .mk 120688 120712 1, .mk 120714 120744 1,
   .mk 120746 120770 1, .mk 120772 120779 1, .mk 122624 122654 1, .mk 123136 123180 1,
   .mk 123191 123197 1, .mk 123214 123214 1, .mk 123536 123565 1, .mk 123584 123627 1,
   .mk 124896 124902 1, .mk 124904 124907 1, .mk 124909 124910 1, .mk 124912 124926 1,
   .mk 124928 125124 1, .mk 125184 125251 1, .mk 125259 125259 1, .mk 126464 126467 1,
   .mk 126469 126495 1, .mk 126497 126498 1, .mk 126500 126500 1, .mk 126503 126503 1,
   .mk 126505 126514 1, .mk 126516 126519 1, .mk 126521 126523 2, .mk 126530 126530 1,
   .mk 126535 126539 2, .mk 126541 126543 1, .mk 126545 126546 1, .mk 126548 126548 1,
   .mk 126551 126559 2, .mk 126561 126562 1, .mk 126564 126564 1, .mk 126567 126570 1,
   .mk 126572 126578 1, .mk 126580 126583 1, .mk 126585 126588 1, .mk 126590 126590 1,
   .mk 126592 126601 1, .mk 126603 126619 1, .mk 126625 126627 1, .mk 126629 126633 1,
   .mk 126635 126651 1, .mk 131072 173791 1, .mk 173824 177976 1, .mk 177984 178205 1,
   .mk 178208 183969 1, .mk 183984 191456 1, .mk 194560 195101 1, .mk 196608 201546 1]

/-- Characters beyond ASCII that may continue an identifier but not begin one. -/
def identifierParts : List Run :=
  [.mk 183 183 1, .mk 768 879 1, .mk 903 903 1, .mk 1155 1159 1, .mk 1425 1469 1, .mk 1471 1471 1,
   .mk 1473 1474 1, .mk 1476 1477 1, .mk 1479 1479 1, .mk 1552 1562 1, .mk 1611 1641 1,
   .mk 1648 1648 1, .mk 1750 1756 1, .mk 1759 1764 1, .mk 1767 1768 1, .mk 1770 1773 1,
   .mk 1776 1785 1, .mk 1809 1809 1, .mk 1840 1866 1, .mk 1958 1968 1, .mk 1984 1993 1,
   .mk 2027 2035 1, .mk 2045 2045 1, .mk 2070 2073 1, .mk 2075 2083 1, .mk 2085 2087 1,
   .mk 2089 2093 1, .mk 2137 2139 1, .mk 2200 2207 1, .mk 2250 2273 1, .mk 2275 2307 1,
   .mk 2362 2364 1, .mk 2366 2383 1, .mk 2385 2391 1, .mk 2402 2403 1, .mk 2406 2415 1,
   .mk 2433 2435 1, .mk 2492 2492 1, .mk 2494 2500 1, .mk 2503 2504 1, .mk 2507 2509 1,
   .mk 2519 2519 1, .mk 2530 2531 1, .mk 2534 2543 1, .mk 2558 2558 1, .mk 2561 2563 1,
   .mk 2620 2620 1, .mk 2622 2626 1, .mk 2631 2632 1, .mk 2635 2637 1, .mk 2641 2641 1,
   .mk 2662 2673 1, .mk 2677 2677 1, .mk 2689 2691 1, .mk 2748 2748 1, .mk 2750 2757 1,
   .mk 2759 2761 1, .mk 2763 2765 1, .mk 2786 2787 1, .mk 2790 2799 1, .mk 2810 2815 1,
   .mk 2817 2819 1, .mk 2876 2876 1, .mk 2878 2884 1, .mk 2887 2888 1, .mk 2891 2893 1,
   .mk 2901 2903 1, .mk 2914 2915 1, .mk 2918 2927 1, .mk 2946 2946 1, .mk 3006 3010 1,
   .mk 3014 3016 1, .mk 3018 3021 1, .mk 3031 3031 1, .mk 3046 3055 1, .mk 3072 3076 1,
   .mk 3132 3132 1, .mk 3134 3140 1, .mk 3142 3144 1, .mk 3146 3149 1, .mk 3157 3158 1,
   .mk 3170 3171 1, .mk 3174 3183 1, .mk 3201 3203 1, .mk 3260 3260 1, .mk 3262 3268 1,
   .mk 3270 3272 1, .mk 3274 3277 1, .mk 3285 3286 1, .mk 3298 3299 1, .mk 3302 3311 1,
   .mk 3328 3331 1, .mk 3387 3388 1, .mk 3390 3396 1, .mk 3398 3400 1, .mk 3402 3405 1,
   .mk 3415 3415 1, .mk 3426 3427 1, .mk 3430 3439 1, .mk 3457 3459 1, .mk 3530 3530 1,
   .mk 3535 3540 1, .mk 3542 3542 1, .mk 3544 3551 1, .mk 3558 3567 1, .mk 3570 3571 1,
   .mk 3633 3633 1, .mk 3636 3642 1, .mk 3655 3662 1, .mk 3664 3673 1, .mk 3761 3761 1,
   .mk 3764 3772 1, .mk 3784 3789 1, .mk 3792 3801 1, .mk 3864 3865 1, .mk 3872 3881 1,
   .mk 3893 3897 2, .mk 3902 3903 1, .mk 3953 3972 1, .mk 3974 3975 1, .mk 3981 3991 1,
   .mk 3993 4028 1, .mk 4038 4038 1, .mk 4139 4158 1, .mk 4160 4169 1, .mk 4182 4185 1,
   .mk 4190 4192 1, .mk 4194 4196 1, .mk 4199 4205 1, .mk 4209 4212 1, .mk 4226 4237 1,
   .mk 4239 4253 1, .mk 4957 4959 1, .mk 4969 4977 1, .mk 5906 5909 1, .mk 5938 5940 1,
   .mk 5970 5971 1, .mk 6002 6003 1, .mk 6068 6099 1, .mk 6109 6109 1, .mk 6112 6121 1,
   .mk 6155 6157 1, .mk 6159 6169 1, .mk 6313 6313 1, .mk 6432 6443 1, .mk 6448 6459 1,
   .mk 6470 6479 1, .mk 6608 6618 1, .mk 6679 6683 1, .mk 6741 6750 1, .mk 6752 6780 1,
   .mk 6783 6793 1, .mk 6800 6809 1, .mk 6832 6845 1, .mk 6847 6862 1, .mk 6912 6916 1,
   .mk 6964 6980 1, .mk 6992 7001 1, .mk 7019 7027 1, .mk 7040 7042 1, .mk 7073 7085 1,
   .mk 7088 7097 1, .mk 7142 7155 1, .mk 7204 7223 1, .mk 7232 7241 1, .mk 7248 7257 1,
   .mk 7376 7378 1, .mk 7380 7400 1, .mk 7405 7405 1, .mk 7412 7412 1, .mk 7415 7417 1,
   .mk 7616 7679 1, .mk 8204 8205 1, .mk 8255 8256 1, .mk 8276 8276 1, .mk 8400 8412 1,
   .mk 8417 8417 1, .mk 8421 8432 1, .mk 11503 11505 1, .mk 11647 11647 1, .mk 11744 11775 1,
   .mk 12330 12335 1, .mk 12441 12442 1, .mk 12539 12539 1, .mk 42528 42537 1, .mk 42607 42607 1,
   .mk 42612 42621 1, .mk 42654 42655 1, .mk 42736 42737 1, .mk 43010 43010 1, .mk 43014 43014 1,
   .mk 43019 43019 1, .mk 43043 43047 1, .mk 43052 43052 1, .mk 43136 43137 1, .mk 43188 43205 1,
   .mk 43216 43225 1, .mk 43232 43249 1, .mk 43263 43273 1, .mk 43302 43309 1, .mk 43335 43347 1,
   .mk 43392 43395 1, .mk 43443 43456 1, .mk 43472 43481 1, .mk 43493 43493 1, .mk 43504 43513 1,
   .mk 43561 43574 1, .mk 43587 43587 1, .mk 43596 43597 1, .mk 43600 43609 1, .mk 43643 43645 1,
   .mk 43696 43696 1, .mk 43698 43700 1, .mk 43703 43704 1, .mk 43710 43711 1, .mk 43713 43713 1,
   .mk 43755 43759 1, .mk 43765 43766 1, .mk 44003 44010 1, .mk 44012 44013 1, .mk 44016 44025 1,
   .mk 64286 64286 1, .mk 65024 65039 1, .mk 65056 65071 1, .mk 65075 65076 1, .mk 65101 65103 1,
   .mk 65296 65305 1, .mk 65343 65343 1, .mk 65381 65381 1, .mk 66045 66045 1, .mk 66272 66272 1,
   .mk 66422 66426 1, .mk 66720 66729 1, .mk 68097 68099 1, .mk 68101 68102 1, .mk 68108 68111 1,
   .mk 68152 68154 1, .mk 68159 68159 1, .mk 68325 68326 1, .mk 68900 68903 1, .mk 68912 68921 1,
   .mk 69291 69292 1, .mk 69446 69456 1, .mk 69506 69509 1, .mk 69632 69634 1, .mk 69688 69702 1,
   .mk 69734 69744 1, .mk 69747 69748 1, .mk 69759 69762 1, .mk 69808 69818 1, .mk 69826 69826 1,
   .mk 69872 69881 1, .mk 69888 69890 1, .mk 69927 69940 1, .mk 69942 69951 1, .mk 69957 69958 1,
   .mk 70003 70003 1, .mk 70016 70018 1, .mk 70067 70080 1, .mk 70089 70092 1, .mk 70094 70105 1,
   .mk 70188 70199 1, .mk 70206 70206 1, .mk 70367 70378 1, .mk 70384 70393 1, .mk 70400 70403 1,
   .mk 70459 70460 1, .mk 70462 70468 1, .mk 70471 70472 1, .mk 70475 70477 1, .mk 70487 70487 1,
   .mk 70498 70499 1, .mk 70502 70508 1, .mk 70512 70516 1, .mk 70709 70726 1, .mk 70736 70745 1,
   .mk 70750 70750 1, .mk 70832 70851 1, .mk 70864 70873 1, .mk 71087 71093 1, .mk 71096 71104 1,
   .mk 71132 71133 1, .mk 71216 71232 1, .mk 71248 71257 1, .mk 71339 71351 1, .mk 71360 71369 1,
   .mk 71453 71467 1, .mk 71472 71481 1, .mk 71724 71738 1, .mk 71904 71913 1, .mk 71984 71989 1,
   .mk 71991 71992 1, .mk 71995 71998 1, .mk 72000 72000 1, .mk 72002 72003 1, .mk 72016 72025 1,
   .mk 72145 72151 1, .mk 72154 72160 1, .mk 72164 72164 1, .mk 72193 72202 1, .mk 72243 72249 1,
   .mk 72251 72254 1, .mk 72263 72263 1, .mk 72273 72283 1, .mk 72330 72345 1, .mk 72751 72758 1,
   .mk 72760 72767 1, .mk 72784 72793 1, .mk 72850 72871 1, .mk 72873 72886 1, .mk 73009 73014 1,
   .mk 73018 73018 1, .mk 73020 73021 1, .mk 73023 73029 1, .mk 73031 73031 1, .mk 73040 73049 1,
   .mk 73098 73102 1, .mk 73104 73105 1, .mk 73107 73111 1, .mk 73120 73129 1, .mk 73459 73462 1,
   .mk 92768 92777 1, .mk 92864 92873 1, .mk 92912 92916 1, .mk 92976 92982 1, .mk 93008 93017 1,
   .mk 94031 94031 1, .mk 94033 94087 1, .mk 94095 94098 1, .mk 94180 94180 1, .mk 94192 94193 1,
   .mk 113821 113822 1, .mk 118528 118573 1, .mk 118576 118598 1, .mk 119141 119145 1,
   .mk 119149 119154 1, .mk 119163 119170 1, .mk 119173 119179 1, .mk 119210 119213 1,
   .mk 119362 119364 1, .mk 120782 120831 1, .mk 121344 121398 1, .mk 121403 121452 1,
   .mk 121461 121461 1, .mk 121476 121476 1, .mk 121499 121503 1, .mk 121505 121519 1,
   .mk 122880 122886 1, .mk 122888 122904 1, .mk 122907 122913 1, .mk 122915 122916 1,
   .mk 122918 122922 1, .mk 123184 123190 1, .mk 123200 123209 1, .mk 123566 123566 1,
   .mk 123628 123641 1, .mk 125136 125142 1, .mk 125252 125258 1, .mk 125264 125273 1,
   .mk 130032 130041 1, .mk 917760 917999 1]

/-- Letters and numbers beyond ASCII. -/
def lettersAndNumbers : List Run :=
  [.mk 170 170 1, .mk 178 179 1, .mk 181 181 1, .mk 185 186 1, .mk 188 190 1, .mk 192 214 1,
   .mk 216 246 1, .mk 248 705 1, .mk 710 721 1, .mk 736 740 1, .mk 748 750 2, .mk 837 837 1,
   .mk 880 884 1, .mk 886 887 1, .mk 890 893 1, .mk 895 895 1, .mk 902 902 1, .mk 904 906 1,
   .mk 908 908 1, .mk 910 929 1, .mk 931 1013 1, .mk 1015 1153 1, .mk 1162 1327 1, .mk 1329 1366 1,
   .mk 1369 1369 1, .mk 1376 1416 1, .mk 1488 1514 1, .mk 1519 1522 1, .mk 1568 1610 1,
   .mk 1632 1641 1, .mk 1646 1647 1, .mk 1649 1747 1, .mk 1749 1749 1, .mk 1765 1766 1,
   .mk 1774 1788 1, .mk 1791 1791 1, .mk 1808 1808 1, .mk 1810 1839 1, .mk 1869 1957 1,
   .mk 1969 1969 1, .mk 1984 2026 1, .mk 2036 2037 1, .mk 2042 2042 1, .mk 2048 2069 1,
   .mk 2074 2074 1, .mk 2084 2084 1, .mk 2088 2088 1, .mk 2112 2136 1, .mk 2144 2154 1,
   .mk 2160 2183 1, .mk 2185 2190 1, .mk 2208 2249 1, .mk 2307 2361 1, .mk 2363 2363 1,
   .mk 2365 2368 1, .mk 2377 2380 1, .mk 2382 2384 1, .mk 2392 2401 1, .mk 2406 2415 1,
   .mk 2417 2432 1, .mk 2434 2435 1, .mk 2437 2444 1, .mk 2447 2448 1, .mk 2451 2472 1,
   .mk 2474 2480 1, .mk 2482 2482 1, .mk 2486 2489 1, .mk 2493 2496 1, .mk 2503 2504 1,
   .mk 2507 2508 1, .mk 2510 2510 1, .mk 2519 2519 1, .mk 2524 2525 1, .mk 2527 2529 1,
   .mk 2534 2545 1, .mk 2548 2553 1, .mk 2556 2556 1, .mk 2563 2563 1, .mk 2565 2570 1,
   .mk 2575 2576 1, .mk 2579 2600 1, .mk 2602 2608 1, .mk 2610 2611 1, .mk 2613 2614 1,
   .mk 2616 2617 1, .mk 2622 2624 1, .mk 2649 2652 1, .mk 2654 2654 1, .mk 2662 2671 1,
   .mk 2674 2676 1, .mk 2691 2691 1, .mk 2693 2701 1, .mk 2703 2705 1, .mk 2707 2728 1,
   .mk 2730 2736 1, .mk 2738 2739 1, .mk 2741 2745 1, .mk 2749 2752 1, .mk 2761 2761 1,
   .mk 2763 2764 1, .mk 2768 2768 1, .mk 2784 2785 1, .mk 2790 2799 1, .mk 2809 2809 1,
   .mk 2818 2819 1, .mk 2821 2828 1, .mk 2831 2832 1, .mk 2835 2856 1, .mk 2858 2864 1,
   .mk 2866 2867 1, .mk 2869 2873 1, .mk 2877 2878 1, .mk 2880 2880 1, .mk 2887 2888 1,
   .mk 2891 2892 1, .mk 2903 2903 1, .mk 2908 2909 1, .mk 2911 2913 1, .mk 2918 2927 1,
   .mk 2929 2935 1, .mk 2947 2947 1, .mk 2949 2954 1, .mk 2958 2960 1, .mk 2962 2965 1,
   .mk 2969 2970 1, .mk 2972 2972 1, .mk 2974 2975 1, .mk 2979 2980 1, .mk 2984 2986 1,
   .mk 2990 3001 1, .mk 3006 3007 1, .mk 3009 3010 1, .mk 3014 3016 1, .mk 3018 3020 1,
   .mk 3024 3024 1, .mk 3031 3031 1, .mk 3046 3058 1, .mk 3073 3075 1, .mk 3077 3084 1,
   .mk 3086 3088 1, .mk 3090 3112 1, .mk 3114 3129 1, .mk 3133 3133 1, .mk 3137 3140 1,
   .mk 3160 3162 1, .mk 3165 3165 1, .mk 3168 3169 1, .mk 3174 3183 1, .mk 3192 3198 1,
   .mk 3200 3200 1, .mk 3202 3203 1, .mk 3205 3212 1, .mk 3214 3216 1, .mk 3218 3240 1,
   .mk 3242 3251 1, .mk 3253 3257 1, .mk 3261 3262 1, .mk 3264 3268 1, .mk 3271 3272 1,
   .mk 3274 3275 1, .mk 3285 3286 1, .mk 3293 3294 1, .mk 3296 3297 1, .mk 3302 3311 1,
   .mk 3313 3314 1, .mk 3330 3340 1, .mk 3342 3344 1, .mk 3346 3386 1, .mk 3389 3392 1,
   .mk 3398 3400 1, .mk 3402 3404 1, .mk 3406 3406 1, .mk 3412 3425 1, .mk 3430 3448 1,
   .mk 3450 3455 1, .mk 3458 3459 1, .mk 3461 3478 1, .mk 3482 3505 1, .mk 3507 3515 1,
   .mk 3517 3517 1, .mk 3520 3526 1, .mk 3535 3537 1, .mk 3544 3551 1, .mk 3558 3567 1,
   .mk 3570 3571 1, .mk 3585 3632 1, .mk 3634 3635 1, .mk 3648 3654 1, .mk 3664 3673 1,
   .mk 3713 3714 1, .mk 3716 3716 1, .mk 3718 3722 1, .mk 3724 3747 1, .mk 3749 3749 1,
   .mk 3751 3760 1, .mk 3762 3763 1, .mk 3773 3773 1, .mk 3776 3780 1, .mk 3782 3782 1,
   .mk 3792 3801 1, .mk 3804 3807 1, .mk 3840 3840 1, .mk 3872 3891 1, .mk 3902 3911 1,
   .mk 3913 3948 1, .mk 3967 3967 1, .mk 3976 3980 1, .mk 4096 4140 1, .mk 4145 4145 1,
   .mk 4152 4152 1, .mk 4155 4156 1, .mk 4159 4169 1, .mk 4176 4183 1, .mk 4186 4189 1,
   .mk 4193 4208 1, .mk 4213 4225 1, .mk 4227 4228 1, .mk 4231 4236 1, .mk 4238 4252 1,
   .mk 4256 4293 1, .mk 4295 4295 1, .mk 4301 4301 1, .mk 4304 4346 1, .mk 4348 4680 1,
   .mk 4682 4685 1, .mk 4688 4694 1, .mk 4696 4696 1, .mk 4698 4701 1, .mk 4704 4744 1,
   .mk 4746 4749 1, .mk 4752 4784 1, .mk 4786 4789 1, .mk 4792 4798 1, .mk 4800 4800 1,
   .mk 4802 4805 1, .mk 4808 4822 1, .mk 4824 4880 1, .mk 4882 4885 1, .mk 4888 4954 1,
   .mk 4969 4988 1, .mk 4992 5007 1, .mk 5024 5109 1, .mk 5112 5117 1, .mk 5121 5740 1,
   .mk 5743 5759 1, .mk 5761 5786 1, .mk 5792 5866 1, .mk 5870 5880 1, .mk 5888 5905 1,
   .mk 5909 5909 1, .mk 5919 5937 1, .mk 5940 5940 1, .mk 5952 5969 1, .mk 5984 5996 1,
   .mk 5998 6000 1, .mk 6016 6067 1, .mk 6070 6070 1, .mk 6078 6085 1, .mk 6087 6088 1,
   .mk 6103 6103 1, .mk 6108 6108 1, .mk 6112 6121 1, .mk 6128 6137 1, .mk 6160 6169 1,
   .mk 6176 6264 1, .mk 6272 6276 1, .mk 6279 6312 1, .mk 6314 6314 1, .mk 6320 6389 1,
   .mk 6400 6430 1, .mk 6435 6438 1, .mk 6441 6443 1, .mk 6448 6449 1, .mk 6451 6456 1,
   .mk 6470 6509 1, .mk 6512 6516 1, .mk 6528 6571 1, .mk 6576 6601 1, .mk 6608 6618 1,
   .mk 6656 6678 1, .mk 6681 6682 1, .mk 6688 6741 1, .mk 6743 6743 1, .mk 6753 6753 1,
   .mk 6755 6756 1, .mk 6765 6770 1, .mk 6784 6793 1, .mk 6800 6809 1, .mk 6823 6823 1,
   .mk 6916 6963 1, .mk 6965 6965 1, .mk 6971 6971 1, .mk 6973 6977 1, .mk 6979 6979 1,
   .mk 6981 6988 1, .mk 6992 7001 1, .mk 7042 7073 1, .mk 7078 7079 1, .mk 7086 7141 1,
   .mk 7143 7143 1, .mk 7146 7148 1, .mk 7150 7150 1, .mk 7168 7211 1, .mk 7220 7221 1,
   .mk 7232 7241 1, .mk 7245 7293 1, .mk 7296 7304 1, .mk 7312 7354 1, .mk 7357 7359 1,
   .mk 7393 7393 1, .mk 7401 7404 1, .mk 7406 7411 1, .mk 7413 7415 1, .mk 7418 7418 1,
   .mk 7424 7615 1, .mk 7680 7957 1, .mk 7960 7965 1, .mk 7968 8005 1, .mk 8008 8013 1,
   .mk 8016 8023 1, .mk 8025 8029 2, .mk 8031 8061 1, .mk 8064 8116 1, .mk 8118 8124 1,
   .mk 8126 8126 1, .mk 8130 8132 1, .mk 8134 8140 1, .mk 8144 8147 1, .mk 8150 8155 1,
   .mk 8160 8172 1, .mk 8178 8180 1, .mk 8182 8188 1, .mk 8304 8305 1, .mk 8308 8313 1,
   .mk 8319 8329 1, .mk 8336 8348 1, .mk 8450 8450 1, .mk 8455 8455 1, .mk 8458 8467 1,
   .mk 8469 8469 1, .mk 8473 8477 1, .mk 8484 8488 2, .mk 8490 8493 1, .mk 8495 8505 1,
   .mk 8508 8511 1, .mk 8517 8521 1, .mk 8526 8526 1, .mk 8528 8585 1, .mk 9312 9371 1,
   .mk 9398 9471 1, .mk 10102 10131 1, .mk 11264 11492 1, .mk 11499 11502 1, .mk 11506 11507 1,
   .mk 11517 11517 1, .mk 11520 11557 1, .mk 11559 11559 1, .mk 11565 11565 1, .mk 11568 11623 1,
   .mk 11631 11631 1, .mk 11648 11670 1, .mk 11680 11686 1, .mk 11688 11694 1, .mk 11696 11702 1,
   .mk 11704 11710 1, .mk 11712 11718 1, .mk 11720 11726 1, .mk 11728 11734 1, .mk 11736 11742 1,
   .mk 11823 11823 1, .mk 12293 12295 1, .mk 12321 12329 1, .mk 12337 12341 1, .mk 12344 12348 1,
   .mk 12353 12438 1, .mk 12445 12447 1, .mk 12449 12538 1, .mk 12540 12543 1, .mk 12549 12591 1,
   .mk 12593 12686 1, .mk 12690 12693 1, .mk 12704 12735 1, .mk 12784 12799 1, .mk 12832 12841 1,
   .mk 12872 12879 1, .mk 12881 12895 1, .mk 12928 12937 1, .mk 12977 12991 1, .mk 13312 19903 1,
   .mk 19968 42124 1, .mk 42192 42237 1, .mk 42240 42508 1, .mk 42512 42539 1, .mk 42560 42606 1,
   .mk 42623 42653 1, .mk 42656 42735 1, .mk 42775 42783 1, .mk 42786 42888 1, .mk 42891 42954 1,
   .mk 42960 42961 1, .mk 42963 42963 1, .mk 42965 42969 1, .mk 42994 43009 1, .mk 43011 43013 1,
   .mk 43015 43018 1, .mk 43020 43044 1, .mk 43047 43047 1, .mk 43056 43061 1, .mk 43072 43123 1,
   .mk 43136 43203 1, .mk 43216 43225 1, .mk 43250 43255 1, .mk 43259 43259 1, .mk 43261 43262 1,
   .mk 43264 43301 1, .mk 43312 43334 1, .mk 43346 43346 1, .mk 43360 43388 1, .mk 43395 43442 1,
   .mk 43444 43445 1, .mk 43450 43451 1, .mk 43454 43455 1, .mk 43471 43481 1, .mk 43488 43492 1,
   .mk 43494 43518 1, .mk 43520 43560 1, .mk 43567 43568 1, .mk 43571 43572 1, .mk 43584 43586 1,
   .mk 43588 43595 1, .mk 43597 43597 1, .mk 43600 43609 1, .mk 43616 43638 1, .mk 43642 43643 1,
   .mk 43645 43695 1, .mk 43697 43697 1, .mk 43701 43702 1, .mk 43705 43709 1, .mk 43712 43714 2,
   .mk 43739 43741 1, .mk 43744 43755 1, .mk 43758 43759 1, .mk 43762 43765 1, .mk 43777 43782 1,
   .mk 43785 43790 1, .mk 43793 43798 1, .mk 43808 43814 1, .mk 43816 43822 1, .mk 43824 43866 1,
   .mk 43868 43881 1, .mk 43888 44004 1, .mk 44006 44007 1, .mk 44009 44010 1, .mk 44012 44012 1,
   .mk 44016 44025 1, .mk 44032 55203 1, .mk 55216 55238 1, .mk 55243 55291 1, .mk 63744 64109 1,
   .mk 64112 64217 1, .mk 64256 64262 1, .mk 64275 64279 1, .mk 64285 64285 1, .mk 64287 64296 1,
   .mk 64298 64310 1, .mk 64312 64316 1, .mk 64318 64318 1, .mk 64320 64321 1, .mk 64323 64324 1,
   .mk 64326 64433 1, .mk 64467 64829 1, .mk 64848 64911 1, .mk 64914 64967 1, .mk 65008 65019 1,
   .mk 65136 65140 1, .mk 65142 65276 1, .mk 65296 65305 1, .mk 65313 65338 1, .mk 65345 65370 1,
   .mk 65382 65470 1, .mk 65474 65479 1, .mk 65482 65487 1, .mk 65490 65495 1, .mk 65498 65500 1,
   .mk 65536 65547 1, .mk 65549 65574 1, .mk 65576 65594 1, .mk 65596 65597 1, .mk 65599 65613 1,
   .mk 65616 65629 1, .mk 65664 65786 1, .mk 65799 65843 1, .mk 65856 65912 1, .mk 65930 65931 1,
   .mk 66176 66204 1, .mk 66208 66256 1, .mk 66273 66299 1, .mk 66304 66339 1, .mk 66349 66378 1,
   .mk 66384 66421 1, .mk 66432 66461 1, .mk 66464 66499 1, .mk 66504 66511 1, .mk 66513 66517 1,
   .mk 66560 66717 1, .mk 66720 66729 1, .mk 66736 66771 1, .mk 66776 66811 1, .mk 66816 66855 1,
   .mk 66864 66915 1, .mk 66928 66938 1, .mk 66940 66954 1, .mk 66956 66962 1, .mk 66964 66965 1,
   .mk 66967 66977 1, .mk 66979 66993 1, .mk 66995 67001 1, .mk 67003 67004 1, .mk 67072 67382 1,
   .mk 67392 67413 1, .mk 67424 67431 1, .mk 67456 67461 1, .mk 67463 67504 1, .mk 67506 67514 1,
   .mk 67584 67589 1, .mk 67592 67592 1, .mk 67594 67637 1, .mk 67639 67640 1, .mk 67644 67644 1,
   .mk 67647 67669 1, .mk 67672 67702 1, .mk 67705 67742 1, .mk 67751 67759 1, .mk 67808 67826 1,
   .mk 67828 67829 1, .mk 67835 67867 1, .mk 67872 67897 1, .mk 67968 68023 1, .mk 68028 68047 1,
   .mk 68050 68096 1, .mk 68112 68115 1, .mk 68117 68119 1, .mk 68121 68149 1, .mk 68160 68168 1,
   .mk 68192 68222 1, .mk 68224 68255 1, .mk 68288 68295 1, .mk 68297 68324 1, .mk 68331 68335 1,
   .mk 68352 68405 1, .mk 68416 68437 1, .mk 68440 68466 1, .mk 68472 68497 1, .mk 68521 68527 1,
   .mk 68608 68680 1, .mk 68736 68786 1, .mk 68800 68850 1, .mk 68858 68899 1, .mk 68912 68921 1,
   .mk 69216 69246 1, .mk 69248 69289 1, .mk 69296 69297 1, .mk 69376 69415 1, .mk 69424 69445 1,
   .mk 69457 69460 1, .mk 69488 69505 1, .mk 69552 69579 1, .mk 69600 69622 1, .mk 69632 69632 1,
   .mk 69634 69687 1, .mk 69714 69743 1, .mk 69745 69746 1, .mk 69749 69749 1, .mk 69762 69810 1,
   .mk 69815 69816 1, .mk 69840 69864 1, .mk 69872 69881 1, .mk 69891 69926 1, .mk 69932 69932 1,
   .mk 69942 69951 1, .mk 69956 69959 1, .mk 69968 70002 1, .mk 70006 70006 1, .mk 70018 70069 1,
   .mk 70079 70079 1, .mk 70081 70084 1, .mk 70094 70094 1, .mk 70096 70106 1, .mk 70108 70108 1,
   .mk 70113 70132 1, .mk 70144 70161 1, .mk 70163 70190 1, .mk 70194 70195 1, .mk 70272 70278 1,
   .mk 70280 70280 1, .mk 70282 70285 1, .mk 70287 70301 1, .mk 70303 70312 1, .mk 70320 70366 1,
   .mk 70368 70370 1, .mk 70384 70393 1, .mk 70402 70403 1, .mk 70405 70412 1, .mk 70415 70416 1,
   .mk 70419 70440 1, .mk 70442 70448 1, .mk 70450 70451 1, .mk 70453 70457 1, .mk 70461 70463 1,
   .mk 70465 70468 1, .mk 70471 70472 1, .mk 70475 70476 1, .mk 70480 70480 1, .mk 70487 70487 1,
   .mk 70493 70499 1, .mk 70656 70711 1, .mk 70720 70721 1, .mk 70725 70725 1, .mk 70727 70730 1,
   .mk 70736 70745 1, .mk 70751 70753 1, .mk 70784 70834 1, .mk 70841 70841 1, .mk 70843 70846 1,
   .mk 70849 70849 1, .mk 70852 70853 1, .mk 70855 70855 1, .mk 70864 70873 1, .mk 71040 71089 1,
   .mk 71096 71099 1, .mk 71102 71102 1, .mk 71128 71131 1, .mk 71168 71218 1, .mk 71227 71228 1,
   .mk 71230 71230 1, .mk 71236 71236 1, .mk 71248 71257 1, .mk 71296 71338 1, .mk 71340 71340 1,
   .mk 71342 71343 1, .mk 71352 71352 1, .mk 71360 71369 1, .mk 71424 71450 1, .mk 71456 71457 1,
   .mk 71462 71462 1, .mk 71472 71483 1, .mk 71488 71494 1, .mk 71680 71726 1, .mk 71736 71736 1,
   .mk 71840 71922 1, .mk 71935 71942 1, .mk 71945 71945 1, .mk 71948 71955 1, .mk 71957 71958 1,
   .mk 71960 71989 1, .mk 71991 71992 1, .mk 71999 72002 1, .mk 72016 72025 1, .mk 72096 72103 1,
   .mk 72106 72147 1, .mk 72156 72159 1, .mk 72161 72161 1, .mk 72163 72164 1, .mk 72192 72192 1,
   .mk 72203 72242 1, .mk 72249 72250 1, .mk 72272 72272 1, .mk 72279 72280 1, .mk 72284 72329 1,
   .mk 72343 72343 1, .mk 72349 72349 1, .mk 72368 72440 1, .mk 72704 72712 1, .mk 72714 72751 1,
   .mk 72766 72768 2, .mk 72784 72812 1, .mk 72818 72847 1, .mk 72873 72873 1, .mk 72881 72881 1,
   .mk 72884 72884 1, .mk 72960 72966 1, .mk 72968 72969 1, .mk 72971 73008 1, .mk 73030 73030 1,
   .mk 73040 73049 1, .mk 73056 73061 1, .mk 73063 73064 1, .mk 73066 73102 1, .mk 73107 73108 1,
   .mk 73110 73112 2, .mk 73120 73129 1, .mk 73440 73458 1, .mk 73461 73462 1, .mk 73648 73648 1,
   .mk 73664 73684 1, .mk 73728 74649 1, .mk 74752 74862 1, .mk 74880 75075 1, .mk 77712 77808 1,
   .mk 77824 78894 1, .mk 82944 83526 1, .mk 92160 92728 1, .mk 92736 92766 1, .mk 92768 92777 1,
   .mk 92784 92862 1, .mk 92864 92873 1, .mk 92880 92909 1, .mk 92928 92975 1, .mk 92992 92995 1,
   .mk 93008 93017 1, .mk 93019 93025 1, .mk 93027 93047 1, .mk 93053 93071 1, .mk 93760 93846 1,
   .mk 93952 94026 1, .mk 94032 94087 1, .mk 94099 94111 1, .mk 94176 94177 1, .mk 94179 94179 1,
   .mk 94208 100343 1, .mk 100352 101589 1, .mk 101632 101640 1, .mk 110576 110579 1,
   .mk 110581 110587 1, .mk 110589 110590 1, .mk 110592 110882 1, .mk 110928 110930 1,
   .mk 110948 110951 1, .mk 110960 111355 1, .mk 113664 113770 1, .mk 113776 113788 1,
   .mk 113792 113800 1, .mk 113808 113817 1, .mk 119520 119539 1, .mk 119648 119672 1,
   .mk 119808 119892 1, .mk 119894 119964 1, .mk 119966 119967 1, .mk 119970 119970 1,
   .mk 119973 119974 1, .mk 119977 119980 1, .mk 119982 119993 1, .mk 119995 119995 1,
   .mk 119997 120003 1, .mk 120005 120069 1, .mk 120071 120074 1, .mk 120077 120084 1,
   .mk 120086 120092 1, .mk 120094 120121 1, .mk 120123 120126 1, .mk 120128 120132 1,
   .mk 120134 120134 1, .mk 120138 120144 1, .mk 120146 120485 1, .mk 120488 120512 1,
   .mk 120514 120538 1, .mk 120540 120570 1, .mk 120572 120596 1, .mk 120598 120628 1,
   .mk 120630 120654 1, .mk 120656 120686 1, .mk 120688 120712 1, .mk 120714 120744 1,
   .mk 120746 120770 1, .mk 120772 120779 1, .mk 120782 120831 1, .mk 122624 122654 1,
   .mk 123136 123180 1, .mk 123191 123197 1, .mk 123200 123209 1, .mk 123214 123214 1,
   .mk 123536 123565 1, .mk 123584 123627 1, .mk 123632 123641 1, .mk 124896 124902 1,
   .mk 124904 124907 1, .mk 124909 124910 1, .mk 124912 124926 1, .mk 124928 125124 1,
   .mk 125127 125135 1, .mk 125184 125251 1, .mk 125259 125259 1, .mk 125264 125273 1,
   .mk 126065 126123 1, .mk 126125 126127 1, .mk 126129 126132 1, .mk 126209 126253 1,
   .mk 126255 126269 1, .mk 126464 126467 1, .mk 126469 126495 1, .mk 126497 126498 1,
   .mk 126500 126500 1, .mk 126503 126503 1, .mk 126505 126514 1, .mk 126516 126519 1,
   .mk 126521 126523 2, .mk 126530 126530 1, .mk 126535 126539 2, .mk 126541 126543 1,
   .mk 126545 126546 1, .mk 126548 126548 1, .mk 126551 126559 2, .mk 126561 126562 1,
   .mk 126564 126564 1, .mk 126567 126570 1, .mk 126572 126578 1, .mk 126580 126583 1,
   .mk 126585 126588 1, .mk 126590 126590 1, .mk 126592 126601 1, .mk 126603 126619 1,
   .mk 126625 126627 1, .mk 126629 126633 1, .mk 126635 126651 1, .mk 127232 127244 1,
   .mk 127280 127305 1, .mk 127312 127337 1, .mk 127344 127369 1, .mk 130032 130041 1,
   .mk 131072 173791 1, .mk 173824 177976 1, .mk 177984 178205 1, .mk 178208 183969 1,
   .mk 183984 191456 1, .mk 194560 195101 1, .mk 196608 201546 1]

/-- Upper-case letters beyond ASCII. -/
def upperCaseLetters : List Run :=
  [.mk 192 214 1, .mk 216 222 1, .mk 256 310 2, .mk 313 327 2, .mk 330 374 2, .mk 376 377 1,
   .mk 379 381 2, .mk 385 386 1, .mk 388 388 1, .mk 390 391 1, .mk 393 395 1, .mk 398 401 1,
   .mk 403 404 1, .mk 406 408 1, .mk 412 413 1, .mk 415 416 1, .mk 418 420 2, .mk 422 423 1,
   .mk 425 425 1, .mk 428 428 1, .mk 430 431 1, .mk 433 435 1, .mk 437 437 1, .mk 439 440 1,
   .mk 444 444 1, .mk 452 452 1, .mk 455 455 1, .mk 458 458 1, .mk 461 475 2, .mk 478 494 2,
   .mk 497 497 1, .mk 500 500 1, .mk 502 504 1, .mk 506 562 2, .mk 570 571 1, .mk 573 574 1,
   .mk 577 577 1, .mk 579 582 1, .mk 584 590 2, .mk 880 882 2, .mk 886 886 1, .mk 895 895 1,
   .mk 902 902 1, .mk 904 906 1, .mk 908 908 1, .mk 910 911 1, .mk 913 929 1, .mk 931 939 1,
   .mk 975 975 1, .mk 978 980 1, .mk 984 1006 2, .mk 1012 1012 1, .mk 1015 1015 1, .mk 1017 1018 1,
   .mk 1021 1071 1, .mk 1120 1152 2, .mk 1162 1214 2, .mk 1216 1217 1, .mk 1219 1229 2,
   .mk 1232 1326 2, .mk 1329 1366 1, .mk 4256 4293 1, .mk 4295 4295 1, .mk 4301 4301 1,
   .mk 5024 5109 1, .mk 7312 7354 1, .mk 7357 7359 1, .mk 7680 7828 2, .mk 7838 7934 2,
   .mk 7944 7951 1, .mk 7960 7965 1, .mk 7976 7983 1, .mk 7992 7999 1, .mk 8008 8013 1,
   .mk 8025 8031 2, .mk 8040 8047 1, .mk 8120 8123 1, .mk 8136 8139 1, .mk 8152 8155 1,
   .mk 8168 8172 1, .mk 8184 8187 1, .mk 8450 8450 1, .mk 8455 8455 1, .mk 8459 8461 1,
   .mk 8464 8466 1, .mk 8469 8469 1, .mk 8473 8477 1, .mk 8484 8488 2, .mk 8490 8493 1,
   .mk 8496 8499 1, .mk 8510 8511 1, .mk 8517 8517 1, .mk 8544 8559 1, .mk 8579 8579 1,
   .mk 9398 9423 1, .mk 11264 11311 1, .mk 11360 11360 1, .mk 11362 11364 1, .mk 11367 11371 2,
   .mk 11373 11376 1, .mk 11378 11378 1, .mk 11381 11381 1, .mk 11390 11392 1, .mk 11394 11490 2,
   .mk 11499 11501 2, .mk 11506 11506 1, .mk 42560 42604 2, .mk 42624 42650 2, .mk 42786 42798 2,
   .mk 42802 42862 2, .mk 42873 42875 2, .mk 42877 42878 1, .mk 42880 42886 2, .mk 42891 42893 2,
   .mk 42896 42898 2, .mk 42902 42920 2, .mk 42922 42926 1, .mk 42928 42932 1, .mk 42934 42946 2,
   .mk 42948 42951 1, .mk 42953 42953 1, .mk 42960 42960 1, .mk 42966 42968 2, .mk 42997 42997 1,
   .mk 65313 65338 1, .mk 66560 66599 1, .mk 66736 66771 1, .mk 66928 66938 1, .mk 66940 66954 1,
   .mk 66956 66962 1, .mk 66964 66965 1, .mk 68736 68786 1, .mk 71840 71871 1, .mk 93760 93791 1,
   .mk 119808 119833 1, .mk 119860 119885 1, .mk 119912 119937 1, .mk 119964 119964 1,
   .mk 119966 119967 1, .mk 119970 119970 1, .mk 119973 119974 1, .mk 119977 119980 1,
   .mk 119982 119989 1, .mk 120016 120041 1, .mk 120068 120069 1, .mk 120071 120074 1,
   .mk 120077 120084 1, .mk 120086 120092 1, .mk 120120 120121 1, .mk 120123 120126 1,
   .mk 120128 120132 1, .mk 120134 120134 1, .mk 120138 120144 1, .mk 120172 120197 1,
   .mk 120224 120249 1, .mk 120276 120301 1, .mk 120328 120353 1, .mk 120380 120405 1,
   .mk 120432 120457 1, .mk 120488 120512 1, .mk 120546 120570 1, .mk 120604 120628 1,
   .mk 120662 120686 1, .mk 120720 120744 1, .mk 120778 120778 1, .mk 125184 125217 1,
   .mk 127280 127305 1, .mk 127312 127337 1, .mk 127344 127369 1]

/-- Lower-case letters beyond ASCII. -/
def lowerCaseLetters : List Run :=
  [.mk 170 170 1, .mk 181 181 1, .mk 186 186 1, .mk 223 246 1, .mk 248 255 1, .mk 257 309 2,
   .mk 311 312 1, .mk 314 326 2, .mk 328 329 1, .mk 331 375 2, .mk 378 380 2, .mk 382 384 1,
   .mk 387 389 2, .mk 392 392 1, .mk 396 397 1, .mk 402 402 1, .mk 405 405 1, .mk 409 411 1,
   .mk 414 414 1, .mk 417 421 2, .mk 424 424 1, .mk 426 427 1, .mk 429 429 1, .mk 432 432 1,
   .mk 436 438 2, .mk 441 442 1, .mk 445 447 1, .mk 454 454 1, .mk 457 457 1, .mk 460 474 2,
   .mk 476 477 1, .mk 479 493 2, .mk 495 496 1, .mk 499 501 2, .mk 505 561 2, .mk 563 569 1,
   .mk 572 572 1, .mk 575 576 1, .mk 578 578 1, .mk 583 589 2, .mk 591 659 1, .mk 661 696 1,
   .mk 704 705 1, .mk 736 740 1, .mk 837 837 1, .mk 881 883 2, .mk 887 887 1, .mk 890 893 1,
   .mk 912 912 1, .mk 940 974 1, .mk 976 977 1, .mk 981 983 1, .mk 985 1005 2, .mk 1007 1011 1,
   .mk 1013 1013 1, .mk 1016 1016 1, .mk 1019 1020 1, .mk 1072 1119 1, .mk 1121 1153 2,
   .mk 1163 1215 2, .mk 1218 1228 2, .mk 1230 1231 1, .mk 1233 1327 2, .mk 1376 1416 1,
   .mk 4304 4346 1, .mk 4349 4351 1, .mk 5112 5117 1, .mk 7296 7304 1, .mk 7424 7615 1,
   .mk 7681 7827 2, .mk 7829 7837 1, .mk 7839 7933 2, .mk 7935 7943 1, .mk 7952 7957 1,
   .mk 7968 7975 1, .mk 7984 7991 1, .mk 8000 8005 1, .mk 8016 8023 1, .mk 8032 8039 1,
   .mk 8048 8061 1, .mk 8064 8071 1, .mk 8080 8087 1, .mk 8096 8103 1, .mk 8112 8116 1,
   .mk 8118 8119 1, .mk 8126 8126 1, .mk 8130 8132 1, .mk 8134 8135 1, .mk 8144 8147 1,
   .mk 8150 8151 1, .mk 8160 8167 1, .mk 8178 8180 1, .mk 8182 8183 1, .mk 8305 8305 1,
   .mk 8319 8319 1, .mk 8336 8348 1, .mk 8458 8458 1, .mk 8462 8463 1, .mk 8467 8467 1,
   .mk 8495 8495 1, .mk 8500 8500 1, .mk 8505 8505 1, .mk 8508 8509 1, .mk 8518 8521 1,
   .mk 8526 8526 1, .mk 8560 8575 1, .mk 8580 8580 1, .mk 9424 9449 1, .mk 11312 11359 1,
   .mk 11361 11361 1, .mk 11365 11366 1, .mk 11368 11372 2, .mk 11377 11377 1, .mk 11379 11380 1,
   .mk 11382 11389 1, .mk 11393 11489 2, .mk 11491 11492 1, .mk 11500 11502 2, .mk 11507 11507 1,
   .mk 11520 11557 1, .mk 11559 11559 1, .mk 11565 11565 1, .mk 42561 42605 2, .mk 42625 42649 2,
   .mk 42651 42653 1, .mk 42787 42797 2, .mk 42799 42801 1, .mk 42803 42861 2, .mk 42863 42872 1,
   .mk 42874 42876 2, .mk 42879 42887 2, .mk 42892 42894 2, .mk 42897 42897 1, .mk 42899 42901 1,
   .mk 42903 42921 2, .mk 42927 42927 1, .mk 42933 42947 2, .mk 42952 42954 2, .mk 42961 42969 2,
   .mk 42998 42998 1, .mk 43000 43002 1, .mk 43824 43866 1, .mk 43868 43880 1, .mk 43888 43967 1,
   .mk 64256 64262 1, .mk 64275 64279 1, .mk 65345 65370 1, .mk 66600 66639 1, .mk 66776 66811 1,
   .mk 66967 66977 1, .mk 66979 66993 1, .mk 66995 67001 1, .mk 67003 67004 1, .mk 67456 67456 1,
   .mk 67459 67461 1, .mk 67463 67504 1, .mk 67506 67514 1, .mk 68800 68850 1, .mk 71872 71903 1,
   .mk 93792 93823 1, .mk 119834 119859 1, .mk 119886 119892 1, .mk 119894 119911 1,
   .mk 119938 119963 1, .mk 119990 119993 1, .mk 119995 119995 1, .mk 119997 120003 1,
   .mk 120005 120015 1, .mk 120042 120067 1, .mk 120094 120119 1, .mk 120146 120171 1,
   .mk 120198 120223 1, .mk 120250 120275 1, .mk 120302 120327 1, .mk 120354 120379 1,
   .mk 120406 120431 1, .mk 120458 120485 1, .mk 120514 120538 1, .mk 120540 120545 1,
   .mk 120572 120596 1, .mk 120598 120603 1, .mk 120630 120654 1, .mk 120656 120661 1,
   .mk 120688 120712 1, .mk 120714 120719 1, .mk 120746 120770 1, .mk 120772 120777 1,
   .mk 120779 120779 1, .mk 122624 122633 1, .mk 122635 122654 1, .mk 125218 125251 1]

/-- Characters beyond ASCII whose lower-case form is one other character. -/
def toLowerRuns : List ShiftedRun :=
  [.mk 192 214 1 32, .mk 216 222 1 32, .mk 256 302 2 1, .mk 306 310 2 1, .mk 313 327 2 1,
   .mk 330 374 2 1, .mk 376 376 1 (-121), .mk 377 381 2 1, .mk 385 385 1 210, .mk 386 388 2 1,
   .mk 390 390 1 206, .mk 391 391 1 1, .mk 393 394 1 205, .mk 395 395 1 1, .mk 398 398 1 79,
   .mk 399 399 1 202, .mk 400 400 1 203, .mk 401 401 1 1, .mk 403 403 1 205, .mk 404 404 1 207,
   .mk 406 406 1 211, .mk 407 407 1 209, .mk 408 408 1 1, .mk 412 412 1 211, .mk 413 413 1 213,
   .mk 415 415 1 214, .mk 416 420 2 1, .mk 422 422 1 218, .mk 423 423 1 1, .mk 425 425 1 218,
   .mk 428 428 1 1, .mk 430 430 1 218, .mk 431 431 1 1, .mk 433 434 1 217, .mk 435 437 2 1,
   .mk 439 439 1 219, .mk 440 440 1 1, .mk 444 444 1 1, .mk 452 452 1 2, .mk 453 453 1 1,
   .mk 455 455 1 2, .mk 456 456 1 1, .mk 458 458 1 2, .mk 459 475 2 1, .mk 478 494 2 1,
   .mk 497 497 1 2, .mk 498 500 2 1, .mk 502 502 1 (-97), .mk 503 503 1 (-56), .mk 504 542 2 1,
   .mk 544 544 1 (-130), .mk 546 562 2 1, .mk 570 570 1 10795, .mk 571 571 1 1,
   .mk 573 573 1 (-163), .mk 574 574 1 10792, .mk 577 577 1 1, .mk 579 579 1 (-195),
   .mk 580 580 1 69, .mk 581 581 1 71, .mk 582 590 2 1, .mk 880 882 2 1, .mk 886 886 1 1,
   .mk 895 895 1 116, .mk 902 902 1 38, .mk 904 906 1 37, .mk 908 908 1 64, .mk 910 911 1 63,
   .mk 913 929 1 32, .mk 931 939 1 32, .mk 975 975 1 8, .mk 984 1006 2 1, .mk 1012 1012 1 (-60),
   .mk 1015 1015 1 1, .mk 1017 1017 1 (-7), .mk 1018 1018 1 1, .mk 1021 1023 1 (-130),
   .mk 1024 1039 1 80, .mk 1040 1071 1 32, .mk 1120 1152 2 1, .mk 1162 1214 2 1,
   .mk 1216 1216 1 15, .mk 1217 1229 2 1, .mk 1232 1326 2 1, .mk 1329 1366 1 48,
   .mk 4256 4293 1 7264, .mk 4295 4295 1 7264, .mk 4301 4301 1 7264, .mk 5024 5103 1 38864,
   .mk 5104 5109 1 8, .mk 7312 7354 1 (-3008), .mk 7357 7359 1 (-3008), .mk 7680 7828 2 1,
   .mk 7838 7838 1 (-7615), .mk 7840 7934 2 1, .mk 7944 7951 1 (-8), .mk 7960 7965 1 (-8),
   .mk 7976 7983 1 (-8), .mk 7992 7999 1 (-8), .mk 8008 8013 1 (-8), .mk 8025 8031 2 (-8),
   .mk 8040 8047 1 (-8), .mk 8072 8079 1 (-8), .mk 8088 8095 1 (-8), .mk 8104 8111 1 (-8),
   .mk 8120 8121 1 (-8), .mk 8122 8123 1 (-74), .mk 8124 8124 1 (-9), .mk 8136 8139 1 (-86),
   .mk 8140 8140 1 (-9), .mk 8152 8153 1 (-8), .mk 8154 8155 1 (-100), .mk 8168 8169 1 (-8),
   .mk 8170 8171 1 (-112), .mk 8172 8172 1 (-7), .mk 8184 8185 1 (-128), .mk 8186 8187 1 (-126),
   .mk 8188 8188 1 (-9), .mk 8486 8486 1 (-7517), .mk 8490 8490 1 (-8383), .mk 8491 8491 1 (-8262),
   .mk 8498 8498 1 28, .mk 8544 8559 1 16, .mk 8579 8579 1 1, .mk 9398 9423 1 26,
   .mk 11264 11311 1 48, .mk 11360 11360 1 1, .mk 11362 11362 1 (-10743),
   .mk 11363 11363 1 (-3814), .mk 11364 11364 1 (-10727), .mk 11367 11371 2 1,
   .mk 11373 11373 1 (-10780), .mk 11374 11374 1 (-10749), .mk 11375 11375 1 (-10783),
   .mk 11376 11376 1 (-10782), .mk 11378 11378 1 1, .mk 11381 11381 1 1,
   .mk 11390 11391 1 (-10815), .mk 11392 11490 2 1, .mk 11499 11501 2 1, .mk 11506 11506 1 1,
   .mk 42560 42604 2 1, .mk 42624 42650 2 1, .mk 42786 42798 2 1, .mk 42802 42862 2 1,
   .mk 42873 42875 2 1, .mk 42877 42877 1 (-35332), .mk 42878 42886 2 1, .mk 42891 42891 1 1,
   .mk 42893 42893 1 (-42280), .mk 42896 42898 2 1, .mk 42902 42920 2 1,
   .mk 42922 42922 1 (-42308), .mk 42923 42923 1 (-42319), .mk 42924 42924 1 (-42315),
   .mk 42925 42925 1 (-42305), .mk 42926 42926 1 (-42308), .mk 42928 42928 1 (-42258),
   .mk 42929 42929 1 (-42282), .mk 42930 42930 1 (-42261), .mk 42931 42931 1 928,
   .mk 42932 42946 2 1, .mk 42948 42948 1 (-48), .mk 42949 42949 1 (-42307),
   .mk 42950 42950 1 (-35384), .mk 42951 42953 2 1, .mk 42960 42960 1 1, .mk 42966 42968 2 1,
   .mk 42997 42997 1 1, .mk 65313 65338 1 32, .mk 66560 66599 1 40, .mk 66736 66771 1 40,
   .mk 66928 66938 1 39, .mk 66940 66954 1 39, .mk 66956 66962 1 39, .mk 66964 66965 1 39,
   .mk 68736 68786 1 64, .mk 71840 71871 1 32, .mk 93760 93791 1 32, .mk 125184 125217 1 34]

/-- Characters beyond ASCII whose upper-case form is one other character. -/
def toUpperRuns : List ShiftedRun :=
  [.mk 181 181 1 743, .mk 224 246 1 (-32), .mk 248 254 1 (-32), .mk 255 255 1 121,
   .mk 257 303 2 (-1), .mk 305 305 1 (-232), .mk 307 311 2 (-1), .mk 314 328 2 (-1),
   .mk 331 375 2 (-1), .mk 378 382 2 (-1), .mk 383 383 1 (-300), .mk 384 384 1 195,
   .mk 387 389 2 (-1), .mk 392 392 1 (-1), .mk 396 396 1 (-1), .mk 402 402 1 (-1),
   .mk 405 405 1 97, .mk 409 409 1 (-1), .mk 410 410 1 163, .mk 414 414 1 130, .mk 417 421 2 (-1),
   .mk 424 424 1 (-1), .mk 429 429 1 (-1), .mk 432 432 1 (-1), .mk 436 438 2 (-1),
   .mk 441 441 1 (-1), .mk 445 445 1 (-1), .mk 447 447 1 56, .mk 453 453 1 (-1),
   .mk 454 454 1 (-2), .mk 456 456 1 (-1), .mk 457 457 1 (-2), .mk 459 459 1 (-1),
   .mk 460 460 1 (-2), .mk 462 476 2 (-1), .mk 477 477 1 (-79), .mk 479 495 2 (-1),
   .mk 498 498 1 (-1), .mk 499 499 1 (-2), .mk 501 501 1 (-1), .mk 505 543 2 (-1),
   .mk 547 563 2 (-1), .mk 572 572 1 (-1), .mk 575 576 1 10815, .mk 578 578 1 (-1),
   .mk 583 591 2 (-1), .mk 592 592 1 10783, .mk 593 593 1 10780, .mk 594 594 1 10782,
   .mk 595 595 1 (-210), .mk 596 596 1 (-206), .mk 598 599 1 (-205), .mk 601 601 1 (-202),
   .mk 603 603 1 (-203), .mk 604 604 1 42319, .mk 608 608 1 (-205), .mk 609 609 1 42315,
   .mk 611 611 1 (-207), .mk 613 613 1 42280, .mk 614 614 1 42308, .mk 616 616 1 (-209),
   .mk 617 617 1 (-211), .mk 618 618 1 42308, .mk 619 619 1 10743, .mk 620 620 1 42305,
   .mk 623 623 1 (-211), .mk 625 625 1 10749, .mk 626 626 1 (-213), .mk 629 629 1 (-214),
   .mk 637 637 1 10727, .mk 640 640 1 (-218), .mk 642 642 1 42307, .mk 643 643 1 (-218),
   .mk 647 647 1 42282, .mk 648 648 1 (-218), .mk 649 649 1 (-69), .mk 650 651 1 (-217),
   .mk 652 652 1 (-71), .mk 658 658 1 (-219), .mk 669 669 1 42261, .mk 670 670 1 42258,
   .mk 837 837 1 84, .mk 881 883 2 (-1), .mk 887 887 1 (-1), .mk 891 893 1 130,
   .mk 940 940 1 (-38), .mk 941 943 1 (-37), .mk 945 961 1 (-32), .mk 962 962 1 (-31),
   .mk 963 971 1 (-32), .mk 972 972 1 (-64), .mk 973 974 1 (-63), .mk 976 976 1 (-62),
   .mk 977 977 1 (-57), .mk 981 981 1 (-47), .mk 982 982 1 (-54), .mk 983 983 1 (-8),
   .mk 985 1007 2 (-1), .mk 1008 1008 1 (-86), .mk 1009 1009 1 (-80), .mk 1010 1010 1 7,
   .mk 1011 1011 1 (-116), .mk 1013 1013 1 (-96), .mk 1016 1016 1 (-1), .mk 1019 1019 1 (-1),
   .mk 1072 1103 1 (-32), .mk 1104 1119 1 (-80), .mk 1121 1153 2 (-1), .mk 1163 1215 2 (-1),
   .mk 1218 1230 2 (-1), .mk 1231 1231 1 (-15), .mk 1233 1327 2 (-1), .mk 1377 1414 1 (-48),
   .mk 4304 4346 1 3008, .mk 4349 4351 1 3008, .mk 5112 5117 1 (-8), .mk 7296 7296 1 (-6254),
   .mk 7297 7297 1 (-6253), .mk 7298 7298 1 (-6244), .mk 7299 7300 1 (-6242),
   .mk 7301 7301 1 (-6243), .mk 7302 7302 1 (-6236), .mk 7303 7303 1 (-6181),
   .mk 7304 7304 1 35266, .mk 7545 7545 1 35332, .mk 7549 7549 1 3814, .mk 7566 7566 1 35384,
   .mk 7681 7829 2 (-1), .mk 7835 7835 1 (-59), .mk 7841 7935 2 (-1), .mk 7936 7943 1 8,
   .mk 7952 7957 1 8, .mk 7968 7975 1 8, .mk 7984 7991 1 8, .mk 8000 8005 1 8, .mk 8017 8023 2 8,
   .mk 8032 8039 1 8, .mk 8048 8049 1 74, .mk 8050 8053 1 86, .mk 8054 8055 1 100,
   .mk 8056 8057 1 128, .mk 8058 8059 1 112, .mk 8060 8061 1 126, .mk 8112 8113 1 8,
   .mk 8126 8126 1 (-7205), .mk 8144 8145 1 8, .mk 8160 8161 1 8, .mk 8165 8165 1 7,
   .mk 8526 8526 1 (-28), .mk 8560 8575 1 (-16), .mk 8580 8580 1 (-1), .mk 9424 9449 1 (-26),
   .mk 11312 11359 1 (-48), .mk 11361 11361 1 (-1), .mk 11365 11365 1 (-10795),
   .mk 11366 11366 1 (-10792), .mk 11368 11372 2 (-1), .mk 11379 11379 1 (-1),
   .mk 11382 11382 1 (-1), .mk 11393 11491 2 (-1), .mk 11500 11502 2 (-1), .mk 11507 11507 1 (-1),
   .mk 11520 11557 1 (-7264), .mk 11559 11559 1 (-7264), .mk 11565 11565 1 (-7264),
   .mk 42561 42605 2 (-1), .mk 42625 42651 2 (-1), .mk 42787 42799 2 (-1), .mk 42803 42863 2 (-1),
   .mk 42874 42876 2 (-1), .mk 42879 42887 2 (-1), .mk 42892 42892 1 (-1), .mk 42897 42899 2 (-1),
   .mk 42900 42900 1 48, .mk 42903 42921 2 (-1), .mk 42933 42947 2 (-1), .mk 42952 42954 2 (-1),
   .mk 42961 42961 1 (-1), .mk 42967 42969 2 (-1), .mk 42998 42998 1 (-1),
   .mk 43859 43859 1 (-928), .mk 43888 43967 1 (-38864), .mk 65345 65370 1 (-32),
   .mk 66600 66639 1 (-40), .mk 66776 66811 1 (-40), .mk 66967 66977 1 (-39),
   .mk 66979 66993 1 (-39), .mk 66995 67001 1 (-39), .mk 67003 67004 1 (-39),
   .mk 68800 68850 1 (-64), .mk 71872 71903 1 (-32), .mk 93792 93823 1 (-32),
   .mk 125218 125251 1 (-34)]

/-- Characters whose lower-case form has several characters. -/
def toLowerSpecial : List (Nat × List Nat) :=
  [(304, [105, 775])]

/-- Characters whose upper-case form has several characters. -/
def toUpperSpecial : List (Nat × List Nat) :=
  [(223, [83, 83]), (329, [700, 78]), (496, [74, 780]), (912, [921, 776, 769]),
   (944, [933, 776, 769]), (1415, [1333, 1362]), (7830, [72, 817]), (7831, [84, 776]),
   (7832, [87, 778]), (7833, [89, 778]), (7834, [65, 702]), (8016, [933, 787]),
   (8018, [933, 787, 768]), (8020, [933, 787, 769]), (8022, [933, 787, 834]), (8064, [7944, 921]),
   (8065, [7945, 921]), (8066, [7946, 921]), (8067, [7947, 921]), (8068, [7948, 921]),
   (8069, [7949, 921]), (8070, [7950, 921]), (8071, [7951, 921]), (8072, [7944, 921]),
   (8073, [7945, 921]), (8074, [7946, 921]), (8075, [7947, 921]), (8076, [7948, 921]),
   (8077, [7949, 921]), (8078, [7950, 921]), (8079, [7951, 921]), (8080, [7976, 921]),
   (8081, [7977, 921]), (8082, [7978, 921]), (8083, [7979, 921]), (8084, [7980, 921]),
   (8085, [7981, 921]), (8086, [7982, 921]), (8087, [7983, 921]), (8088, [7976, 921]),
   (8089, [7977, 921]), (8090, [7978, 921]), (8091, [7979, 921]), (8092, [7980, 921]),
   (8093, [7981, 921]), (8094, [7982, 921]), (8095, [7983, 921]), (8096, [8040, 921]),
   (8097, [8041, 921]), (8098, [8042, 921]), (8099, [8043, 921]), (8100, [8044, 921]),
   (8101, [8045, 921]), (8102, [8046, 921]), (8103, [8047, 921]), (8104, [8040, 921]),
   (8105, [8041, 921]), (8106, [8042, 921]), (8107, [8043, 921]), (8108, [8044, 921]),
   (8109, [8045, 921]), (8110, [8046, 921]), (8111, [8047, 921]), (8114, [8122, 921]),
   (8115, [913, 921]), (8116, [902, 921]), (8118, [913, 834]), (8119, [913, 834, 921]),
   (8124, [913, 921]), (8130, [8138, 921]), (8131, [919, 921]), (8132, [905, 921]),
   (8134, [919, 834]), (8135, [919, 834, 921]), (8140, [919, 921]), (8146, [921, 776, 768]),
   (8147, [921, 776, 769]), (8150, [921, 834]), (8151, [921, 776, 834]), (8162, [933, 776, 768]),
   (8163, [933, 776, 769]), (8164, [929, 787]), (8166, [933, 834]), (8167, [933, 776, 834]),
   (8178, [8186, 921]), (8179, [937, 921]), (8180, [911, 921]), (8182, [937, 834]),
   (8183, [937, 834, 921]), (8188, [937, 921]), (64256, [70, 70]), (64257, [70, 73]),
   (64258, [70, 76]), (64259, [70, 70, 73]), (64260, [70, 70, 76]), (64261, [83, 84]),
   (64262, [83, 84]), (64275, [1348, 1350]), (64276, [1348, 1333]), (64277, [1348, 1339]),
   (64278, [1358, 1350]), (64279, [1348, 1341])]

end CommandFiles.Text
