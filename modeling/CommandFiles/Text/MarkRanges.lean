import CommandFiles.Text.CharacterRanges

/-!
# Marks and unprinted characters

Runs of code points beyond ASCII that decide how a character stands in a quoted text and whether it
is passed over when the end of a word is looked for.
-/

namespace CommandFiles.Text

/-- Characters beyond ASCII that combine with the character before them without taking room. -/
def combiningMarks : List Run :=
  [.mk 768 879 1, .mk 1155 1161 1, .mk 1425 1469 1, .mk 1471 1471 1, .mk 1473 1474 1,
   .mk 1476 1477 1, .mk 1479 1479 1, .mk 1552 1562 1, .mk 1611 1631 1, .mk 1648 1648 1,
   .mk 1750 1756 1, .mk 1759 1764 1, .mk 1767 1768 1, .mk 1770 1773 1, .mk 1809 1809 1,
   .mk 1840 1866 1, .mk 1958 1968 1, .mk 2027 2035 1, .mk 2045 2045 1, .mk 2070 2073 1,
   .mk 2075 2083 1, .mk 2085 2087 1, .mk 2089 2093 1, .mk 2137 2139 1, .mk 2200 2207 1,
   .mk 2250 2273 1, .mk 2275 2306 1, .mk 2362 2364 2, .mk 2369 2376 1, .mk 2381 2381 1,
   .mk 2385 2391 1, .mk 2402 2403 1, .mk 2433 2433 1, .mk 2492 2492 1, .mk 2497 2500 1,
   .mk 2509 2509 1, .mk 2530 2531 1, .mk 2558 2558 1, .mk 2561 2562 1, .mk 2620 2620 1,
   .mk 2625 2626 1, .mk 2631 2632 1, .mk 2635 2637 1, .mk 2641 2641 1, .mk 2672 2673 1,
   .mk 2677 2677 1, .mk 2689 2690 1, .mk 2748 2748 1, .mk 2753 2757 1, .mk 2759 2760 1,
   .mk 2765 2765 1, .mk 2786 2787 1, .mk 2810 2815 1, .mk 2817 2817 1, .mk 2876 2876 1,
   .mk 2879 2879 1, .mk 2881 2884 1, .mk 2893 2893 1, .mk 2901 2902 1, .mk 2914 2915 1,
   .mk 2946 2946 1, .mk 3008 3008 1, .mk 3021 3021 1, .mk 3072 3072 1, .mk 3076 3076 1,
   .mk 3132 3132 1, .mk 3134 3136 1, .mk 3142 3144 1, .mk 3146 3149 1, .mk 3157 3158 1,
   .mk 3170 3171 1, .mk 3201 3201 1, .mk 3260 3260 1, .mk 3263 3263 1, .mk 3270 3270 1,
   .mk 3276 3277 1, .mk 3298 3299 1, .mk 3328 3329 1, .mk 3387 3388 1, .mk 3393 3396 1,
   .mk 3405 3405 1, .mk 3426 3427 1, .mk 3457 3457 1, .mk 3530 3530 1, .mk 3538 3540 1,
   .mk 3542 3542 1, .mk 3633 3633 1, .mk 3636 3642 1, .mk 3655 3662 1, .mk 3761 3761 1,
   .mk 3764 3772 1, .mk 3784 3789 1, .mk 3864 3865 1, .mk 3893 3897 2, .mk 3953 3966 1,
   .mk 3968 3972 1, .mk 3974 3975 1, .mk 3981 3991 1, .mk 3993 4028 1, .mk 4038 4038 1,
   .mk 4141 4144 1, .mk 4146 4151 1, .mk 4153 4154 1, .mk 4157 4158 1, .mk 4184 4185 1,
   .mk 4190 4192 1, .mk 4209 4212 1, .mk 4226 4226 1, .mk 4229 4230 1, .mk 4237 4237 1,
   .mk 4253 4253 1, .mk 4957 4959 1, .mk 5906 5908 1, .mk 5938 5939 1, .mk 5970 5971 1,
   .mk 6002 6003 1, .mk 6068 6069 1, .mk 6071 6077 1, .mk 6086 6086 1, .mk 6089 6099 1,
   .mk 6109 6109 1, .mk 6155 6157 1, .mk 6159 6159 1, .mk 6277 6278 1, .mk 6313 6313 1,
   .mk 6432 6434 1, .mk 6439 6440 1, .mk 6450 6450 1, .mk 6457 6459 1, .mk 6679 6680 1,
   .mk 6683 6683 1, .mk 6742 6742 1, .mk 6744 6750 1, .mk 6752 6754 2, .mk 6757 6764 1,
   .mk 6771 6780 1, .mk 6783 6783 1, .mk 6832 6862 1, .mk 6912 6915 1, .mk 6964 6964 1,
   .mk 6966 6970 1, .mk 6972 6972 1, .mk 6978 6978 1, .mk 7019 7027 1, .mk 7040 7041 1,
   .mk 7074 7077 1, .mk 7080 7081 1, .mk 7083 7085 1, .mk 7142 7142 1, .mk 7144 7145 1,
   .mk 7149 7149 1, .mk 7151 7153 1, .mk 7212 7219 1, .mk 7222 7223 1, .mk 7376 7378 1,
   .mk 7380 7392 1, .mk 7394 7400 1, .mk 7405 7405 1, .mk 7412 7412 1, .mk 7416 7417 1,
   .mk 7616 7679 1, .mk 8400 8432 1, .mk 11503 11505 1, .mk 11647 11647 1, .mk 11744 11775 1,
   .mk 12330 12333 1, .mk 12441 12442 1, .mk 42607 42610 1, .mk 42612 42621 1, .mk 42654 42655 1,
   .mk 42736 42737 1, .mk 43010 43010 1, .mk 43014 43014 1, .mk 43019 43019 1, .mk 43045 43046 1,
   .mk 43052 43052 1, .mk 43204 43205 1, .mk 43232 43249 1, .mk 43263 43263 1, .mk 43302 43309 1,
   .mk 43335 43345 1, .mk 43392 43394 1, .mk 43443 43443 1, .mk 43446 43449 1, .mk 43452 43453 1,
   .mk 43493 43493 1, .mk 43561 43566 1, .mk 43569 43570 1, .mk 43573 43574 1, .mk 43587 43587 1,
   .mk 43596 43596 1, .mk 43644 43644 1, .mk 43696 43696 1, .mk 43698 43700 1, .mk 43703 43704 1,
   .mk 43710 43711 1, .mk 43713 43713 1, .mk 43756 43757 1, .mk 43766 43766 1, .mk 44005 44005 1,
   .mk 44008 44008 1, .mk 44013 44013 1, .mk 64286 64286 1, .mk 65024 65039 1, .mk 65056 65071 1,
   .mk 66045 66045 1, .mk 66272 66272 1, .mk 66422 66426 1, .mk 68097 68099 1, .mk 68101 68102 1,
   .mk 68108 68111 1, .mk 68152 68154 1, .mk 68159 68159 1, .mk 68325 68326 1, .mk 68900 68903 1,
   .mk 69291 69292 1, .mk 69446 69456 1, .mk 69506 69509 1, .mk 69633 69633 1, .mk 69688 69702 1,
   .mk 69744 69744 1, .mk 69747 69748 1, .mk 69759 69761 1, .mk 69811 69814 1, .mk 69817 69818 1,
   .mk 69826 69826 1, .mk 69888 69890 1, .mk 69927 69931 1, .mk 69933 69940 1, .mk 70003 70003 1,
   .mk 70016 70017 1, .mk 70070 70078 1, .mk 70089 70092 1, .mk 70095 70095 1, .mk 70191 70193 1,
   .mk 70196 70196 1, .mk 70198 70199 1, .mk 70206 70206 1, .mk 70367 70367 1, .mk 70371 70378 1,
   .mk 70400 70401 1, .mk 70459 70460 1, .mk 70464 70464 1, .mk 70502 70508 1, .mk 70512 70516 1,
   .mk 70712 70719 1, .mk 70722 70724 1, .mk 70726 70726 1, .mk 70750 70750 1, .mk 70835 70840 1,
   .mk 70842 70842 1, .mk 70847 70848 1, .mk 70850 70851 1, .mk 71090 71093 1, .mk 71100 71101 1,
   .mk 71103 71104 1, .mk 71132 71133 1, .mk 71219 71226 1, .mk 71229 71229 1, .mk 71231 71232 1,
   .mk 71339 71341 2, .mk 71344 71349 1, .mk 71351 71351 1, .mk 71453 71455 1, .mk 71458 71461 1,
   .mk 71463 71467 1, .mk 71727 71735 1, .mk 71737 71738 1, .mk 71995 71996 1, .mk 71998 71998 1,
   .mk 72003 72003 1, .mk 72148 72151 1, .mk 72154 72155 1, .mk 72160 72160 1, .mk 72193 72202 1,
   .mk 72243 72248 1, .mk 72251 72254 1, .mk 72263 72263 1, .mk 72273 72278 1, .mk 72281 72283 1,
   .mk 72330 72342 1, .mk 72344 72345 1, .mk 72752 72758 1, .mk 72760 72765 1, .mk 72767 72767 1,
   .mk 72850 72871 1, .mk 72874 72880 1, .mk 72882 72883 1, .mk 72885 72886 1, .mk 73009 73014 1,
   .mk 73018 73018 1, .mk 73020 73021 1, .mk 73023 73029 1, .mk 73031 73031 1, .mk 73104 73105 1,
   .mk 73109 73111 2, .mk 73459 73460 1, .mk 92912 92916 1, .mk 92976 92982 1, .mk 94031 94031 1,
   .mk 94095 94098 1, .mk 94180 94180 1, .mk 113821 113822 1, .mk 118528 118573 1,
   .mk 118576 118598 1, .mk 119143 119145 1, .mk 119163 119170 1, .mk 119173 119179 1,
   .mk 119210 119213 1, .mk 119362 119364 1, .mk 121344 121398 1, .mk 121403 121452 1,
   .mk 121461 121461 1, .mk 121476 121476 1, .mk 121499 121503 1, .mk 121505 121519 1,
   .mk 122880 122886 1, .mk 122888 122904 1, .mk 122907 122913 1, .mk 122915 122916 1,
   .mk 122918 122922 1, .mk 123184 123190 1, .mk 123566 123566 1, .mk 123628 123631 1,
   .mk 125136 125142 1, .mk 125252 125258 1, .mk 917760 917999 1]

/-- Characters beyond ASCII that extend the character before them though they are no such marks. -/
def otherExtenders : List Run :=
  [.mk 2494 2494 1, .mk 2519 2519 1, .mk 2878 2878 1, .mk 2903 2903 1, .mk 3006 3006 1,
   .mk 3031 3031 1, .mk 3266 3266 1, .mk 3285 3286 1, .mk 3390 3390 1, .mk 3415 3415 1,
   .mk 3535 3535 1, .mk 3551 3551 1, .mk 6965 6965 1, .mk 8204 8204 1, .mk 12334 12335 1,
   .mk 65438 65439 1, .mk 70462 70462 1, .mk 70487 70487 1, .mk 70832 70832 1, .mk 70845 70845 1,
   .mk 71087 71087 1, .mk 71984 71984 1, .mk 119141 119141 1, .mk 119150 119154 1,
   .mk 917536 917631 1]

/-- Characters beyond ASCII, combining marks aside, that are passed over inside a word. -/
def otherIgnorables : List Run :=
  [.mk 168 168 1, .mk 173 175 2, .mk 180 180 1, .mk 183 184 1, .mk 688 767 1, .mk 884 885 1,
   .mk 890 890 1, .mk 900 901 1, .mk 903 903 1, .mk 1369 1369 1, .mk 1375 1375 1, .mk 1524 1524 1,
   .mk 1536 1541 1, .mk 1564 1564 1, .mk 1600 1600 1, .mk 1757 1757 1, .mk 1765 1766 1,
   .mk 1807 1807 1, .mk 2036 2037 1, .mk 2042 2042 1, .mk 2074 2074 1, .mk 2084 2084 1,
   .mk 2088 2088 1, .mk 2184 2184 1, .mk 2192 2193 1, .mk 2249 2249 1, .mk 2274 2274 1,
   .mk 2417 2417 1, .mk 3654 3654 1, .mk 3782 3782 1, .mk 4348 4348 1, .mk 6103 6103 1,
   .mk 6158 6158 1, .mk 6211 6211 1, .mk 6823 6823 1, .mk 7288 7293 1, .mk 7468 7530 1,
   .mk 7544 7544 1, .mk 7579 7615 1, .mk 8125 8125 1, .mk 8127 8129 1, .mk 8141 8143 1,
   .mk 8157 8159 1, .mk 8173 8175 1, .mk 8189 8190 1, .mk 8203 8207 1, .mk 8216 8217 1,
   .mk 8228 8228 1, .mk 8231 8231 1, .mk 8234 8238 1, .mk 8288 8292 1, .mk 8294 8303 1,
   .mk 8305 8305 1, .mk 8319 8319 1, .mk 8336 8348 1, .mk 11388 11389 1, .mk 11631 11631 1,
   .mk 11823 11823 1, .mk 12293 12293 1, .mk 12337 12341 1, .mk 12347 12347 1, .mk 12443 12446 1,
   .mk 12540 12542 1, .mk 40981 40981 1, .mk 42232 42237 1, .mk 42508 42508 1, .mk 42623 42623 1,
   .mk 42652 42653 1, .mk 42752 42785 1, .mk 42864 42864 1, .mk 42888 42890 1, .mk 42994 42996 1,
   .mk 43000 43001 1, .mk 43471 43471 1, .mk 43494 43494 1, .mk 43632 43632 1, .mk 43741 43741 1,
   .mk 43763 43764 1, .mk 43867 43871 1, .mk 43881 43883 1, .mk 64434 64450 1, .mk 65043 65043 1,
   .mk 65106 65106 1, .mk 65109 65109 1, .mk 65279 65279 1, .mk 65287 65287 1, .mk 65294 65294 1,
   .mk 65306 65306 1, .mk 65342 65344 2, .mk 65392 65392 1, .mk 65438 65439 1, .mk 65507 65507 1,
   .mk 65529 65531 1, .mk 67456 67461 1, .mk 67463 67504 1, .mk 67506 67514 1, .mk 69821 69821 1,
   .mk 69837 69837 1, .mk 78896 78904 1, .mk 92992 92995 1, .mk 94099 94111 1, .mk 94176 94177 1,
   .mk 94179 94179 1, .mk 110576 110579 1, .mk 110581 110587 1, .mk 110589 110590 1,
   .mk 113824 113827 1, .mk 119155 119162 1, .mk 123191 123197 1, .mk 125259 125259 1,
   .mk 127995 127999 1, .mk 917505 917505 1, .mk 917536 917631 1]

/-- Characters beyond ASCII that have no printed form: controls, blanks and unassigned ones. -/
def unprinted : List Run :=
  [.mk 128 160 1, .mk 173 173 1, .mk 888 889 1, .mk 896 899 1, .mk 907 909 2, .mk 930 930 1,
   .mk 1328 1328 1, .mk 1367 1368 1, .mk 1419 1420 1, .mk 1424 1424 1, .mk 1480 1487 1,
   .mk 1515 1518 1, .mk 1525 1541 1, .mk 1564 1564 1, .mk 1757 1757 1, .mk 1806 1807 1,
   .mk 1867 1868 1, .mk 1970 1983 1, .mk 2043 2044 1, .mk 2094 2095 1, .mk 2111 2111 1,
   .mk 2140 2141 1, .mk 2143 2143 1, .mk 2155 2159 1, .mk 2191 2199 1, .mk 2274 2274 1,
   .mk 2436 2436 1, .mk 2445 2446 1, .mk 2449 2450 1, .mk 2473 2473 1, .mk 2481 2481 1,
   .mk 2483 2485 1, .mk 2490 2491 1, .mk 2501 2502 1, .mk 2505 2506 1, .mk 2511 2518 1,
   .mk 2520 2523 1, .mk 2526 2526 1, .mk 2532 2533 1, .mk 2559 2560 1, .mk 2564 2564 1,
   .mk 2571 2574 1, .mk 2577 2578 1, .mk 2601 2601 1, .mk 2609 2609 1, .mk 2612 2612 1,
   .mk 2615 2615 1, .mk 2618 2619 1, .mk 2621 2621 1, .mk 2627 2630 1, .mk 2633 2634 1,
   .mk 2638 2640 1, .mk 2642 2648 1, .mk 2653 2653 1, .mk 2655 2661 1, .mk 2679 2688 1,
   .mk 2692 2692 1, .mk 2702 2702 1, .mk 2706 2706 1, .mk 2729 2729 1, .mk 2737 2737 1,
   .mk 2740 2740 1, .mk 2746 2747 1, .mk 2758 2758 1, .mk 2762 2762 1, .mk 2766 2767 1,
   .mk 2769 2783 1, .mk 2788 2789 1, .mk 2802 2808 1, .mk 2816 2816 1, .mk 2820 2820 1,
   .mk 2829 2830 1, .mk 2833 2834 1, .mk 2857 2857 1, .mk 2865 2865 1, .mk 2868 2868 1,
   .mk 2874 2875 1, .mk 2885 2886 1, .mk 2889 2890 1, .mk 2894 2900 1, .mk 2904 2907 1,
   .mk 2910 2910 1, .mk 2916 2917 1, .mk 2936 2945 1, .mk 2948 2948 1, .mk 2955 2957 1,
   .mk 2961 2961 1, .mk 2966 2968 1, .mk 2971 2973 2, .mk 2976 2978 1, .mk 2981 2983 1,
   .mk 2987 2989 1, .mk 3002 3005 1, .mk 3011 3013 1, .mk 3017 3017 1, .mk 3022 3023 1,
   .mk 3025 3030 1, .mk 3032 3045 1, .mk 3067 3071 1, .mk 3085 3085 1, .mk 3089 3089 1,
   .mk 3113 3113 1, .mk 3130 3131 1, .mk 3141 3141 1, .mk 3145 3145 1, .mk 3150 3156 1,
   .mk 3159 3159 1, .mk 3163 3164 1, .mk 3166 3167 1, .mk 3172 3173 1, .mk 3184 3190 1,
   .mk 3213 3213 1, .mk 3217 3217 1, .mk 3241 3241 1, .mk 3252 3252 1, .mk 3258 3259 1,
   .mk 3269 3269 1, .mk 3273 3273 1, .mk 3278 3284 1, .mk 3287 3292 1, .mk 3295 3295 1,
   .mk 3300 3301 1, .mk 3312 3312 1, .mk 3315 3327 1, .mk 3341 3341 1, .mk 3345 3345 1,
   .mk 3397 3397 1, .mk 3401 3401 1, .mk 3408 3411 1, .mk 3428 3429 1, .mk 3456 3456 1,
   .mk 3460 3460 1, .mk 3479 3481 1, .mk 3506 3506 1, .mk 3516 3516 1, .mk 3518 3519 1,
   .mk 3527 3529 1, .mk 3531 3534 1, .mk 3541 3543 2, .mk 3552 3557 1, .mk 3568 3569 1,
   .mk 3573 3584 1, .mk 3643 3646 1, .mk 3676 3712 1, .mk 3715 3717 2, .mk 3723 3723 1,
   .mk 3748 3750 2, .mk 3774 3775 1, .mk 3781 3783 2, .mk 3790 3791 1, .mk 3802 3803 1,
   .mk 3808 3839 1, .mk 3912 3912 1, .mk 3949 3952 1, .mk 3992 3992 1, .mk 4029 4029 1,
   .mk 4045 4045 1, .mk 4059 4095 1, .mk 4294 4294 1, .mk 4296 4300 1, .mk 4302 4303 1,
   .mk 4681 4681 1, .mk 4686 4687 1, .mk 4695 4697 2, .mk 4702 4703 1, .mk 4745 4745 1,
   .mk 4750 4751 1, .mk 4785 4785 1, .mk 4790 4791 1, .mk 4799 4801 2, .mk 4806 4807 1,
   .mk 4823 4823 1, .mk 4881 4881 1, .mk 4886 4887 1, .mk 4955 4956 1, .mk 4989 4991 1,
   .mk 5018 5023 1, .mk 5110 5111 1, .mk 5118 5119 1, .mk 5760 5760 1, .mk 5789 5791 1,
   .mk 5881 5887 1, .mk 5910 5918 1, .mk 5943 5951 1, .mk 5972 5983 1, .mk 5997 5997 1,
   .mk 6001 6001 1, .mk 6004 6015 1, .mk 6110 6111 1, .mk 6122 6127 1, .mk 6138 6143 1,
   .mk 6158 6158 1, .mk 6170 6175 1, .mk 6265 6271 1, .mk 6315 6319 1, .mk 6390 6399 1,
   .mk 6431 6431 1, .mk 6444 6447 1, .mk 6460 6463 1, .mk 6465 6467 1, .mk 6510 6511 1,
   .mk 6517 6527 1, .mk 6572 6575 1, .mk 6602 6607 1, .mk 6619 6621 1, .mk 6684 6685 1,
   .mk 6751 6751 1, .mk 6781 6782 1, .mk 6794 6799 1, .mk 6810 6815 1, .mk 6830 6831 1,
   .mk 6863 6911 1, .mk 6989 6991 1, .mk 7039 7039 1, .mk 7156 7163 1, .mk 7224 7226 1,
   .mk 7242 7244 1, .mk 7305 7311 1, .mk 7355 7356 1, .mk 7368 7375 1, .mk 7419 7423 1,
   .mk 7958 7959 1, .mk 7966 7967 1, .mk 8006 8007 1, .mk 8014 8015 1, .mk 8024 8030 2,
   .mk 8062 8063 1, .mk 8117 8117 1, .mk 8133 8133 1, .mk 8148 8149 1, .mk 8156 8156 1,
   .mk 8176 8177 1, .mk 8181 8181 1, .mk 8191 8207 1, .mk 8232 8239 1, .mk 8287 8303 1,
   .mk 8306 8307 1, .mk 8335 8335 1, .mk 8349 8351 1, .mk 8385 8399 1, .mk 8433 8447 1,
   .mk 8588 8591 1, .mk 9255 9279 1, .mk 9291 9311 1, .mk 11124 11125 1, .mk 11158 11158 1,
   .mk 11508 11512 1, .mk 11558 11558 1, .mk 11560 11564 1, .mk 11566 11567 1, .mk 11624 11630 1,
   .mk 11633 11646 1, .mk 11671 11679 1, .mk 11687 11687 1, .mk 11695 11695 1, .mk 11703 11703 1,
   .mk 11711 11711 1, .mk 11719 11719 1, .mk 11727 11727 1, .mk 11735 11735 1, .mk 11743 11743 1,
   .mk 11870 11903 1, .mk 11930 11930 1, .mk 12020 12031 1, .mk 12246 12271 1, .mk 12284 12288 1,
   .mk 12352 12352 1, .mk 12439 12440 1, .mk 12544 12548 1, .mk 12592 12592 1, .mk 12687 12687 1,
   .mk 12772 12783 1, .mk 12831 12831 1, .mk 42125 42127 1, .mk 42183 42191 1, .mk 42540 42559 1,
   .mk 42744 42751 1, .mk 42955 42959 1, .mk 42962 42964 2, .mk 42970 42993 1, .mk 43053 43055 1,
   .mk 43066 43071 1, .mk 43128 43135 1, .mk 43206 43213 1, .mk 43226 43231 1, .mk 43348 43358 1,
   .mk 43389 43391 1, .mk 43470 43470 1, .mk 43482 43485 1, .mk 43519 43519 1, .mk 43575 43583 1,
   .mk 43598 43599 1, .mk 43610 43611 1, .mk 43715 43738 1, .mk 43767 43776 1, .mk 43783 43784 1,
   .mk 43791 43792 1, .mk 43799 43807 1, .mk 43815 43815 1, .mk 43823 43823 1, .mk 43884 43887 1,
   .mk 44014 44015 1, .mk 44026 44031 1, .mk 55204 55215 1, .mk 55239 55242 1, .mk 55292 55295 1,
   .mk 57344 63743 1, .mk 64110 64111 1, .mk 64218 64255 1, .mk 64263 64274 1, .mk 64280 64284 1,
   .mk 64311 64311 1, .mk 64317 64319 2, .mk 64322 64322 1, .mk 64325 64325 1, .mk 64451 64466 1,
   .mk 64912 64913 1, .mk 64968 64974 1, .mk 64976 65007 1, .mk 65050 65055 1, .mk 65107 65107 1,
   .mk 65127 65127 1, .mk 65132 65135 1, .mk 65141 65141 1, .mk 65277 65280 1, .mk 65471 65473 1,
   .mk 65480 65481 1, .mk 65488 65489 1, .mk 65496 65497 1, .mk 65501 65503 1, .mk 65511 65511 1,
   .mk 65519 65531 1, .mk 65534 65535 1, .mk 65548 65548 1, .mk 65575 65575 1, .mk 65595 65595 1,
   .mk 65598 65598 1, .mk 65614 65615 1, .mk 65630 65663 1, .mk 65787 65791 1, .mk 65795 65798 1,
   .mk 65844 65846 1, .mk 65935 65935 1, .mk 65949 65951 1, .mk 65953 65999 1, .mk 66046 66175 1,
   .mk 66205 66207 1, .mk 66257 66271 1, .mk 66300 66303 1, .mk 66340 66348 1, .mk 66379 66383 1,
   .mk 66427 66431 1, .mk 66462 66462 1, .mk 66500 66503 1, .mk 66518 66559 1, .mk 66718 66719 1,
   .mk 66730 66735 1, .mk 66772 66775 1, .mk 66812 66815 1, .mk 66856 66863 1, .mk 66916 66926 1,
   .mk 66939 66939 1, .mk 66955 66955 1, .mk 66963 66963 1, .mk 66966 66966 1, .mk 66978 66978 1,
   .mk 66994 66994 1, .mk 67002 67002 1, .mk 67005 67071 1, .mk 67383 67391 1, .mk 67414 67423 1,
   .mk 67432 67455 1, .mk 67462 67462 1, .mk 67505 67505 1, .mk 67515 67583 1, .mk 67590 67591 1,
   .mk 67593 67593 1, .mk 67638 67638 1, .mk 67641 67643 1, .mk 67645 67646 1, .mk 67670 67670 1,
   .mk 67743 67750 1, .mk 67760 67807 1, .mk 67827 67827 1, .mk 67830 67834 1, .mk 67868 67870 1,
   .mk 67898 67902 1, .mk 67904 67967 1, .mk 68024 68027 1, .mk 68048 68049 1, .mk 68100 68100 1,
   .mk 68103 68107 1, .mk 68116 68116 1, .mk 68120 68120 1, .mk 68150 68151 1, .mk 68155 68158 1,
   .mk 68169 68175 1, .mk 68185 68191 1, .mk 68256 68287 1, .mk 68327 68330 1, .mk 68343 68351 1,
   .mk 68406 68408 1, .mk 68438 68439 1, .mk 68467 68471 1, .mk 68498 68504 1, .mk 68509 68520 1,
   .mk 68528 68607 1, .mk 68681 68735 1, .mk 68787 68799 1, .mk 68851 68857 1, .mk 68904 68911 1,
   .mk 68922 69215 1, .mk 69247 69247 1, .mk 69290 69290 1, .mk 69294 69295 1, .mk 69298 69375 1,
   .mk 69416 69423 1, .mk 69466 69487 1, .mk 69514 69551 1, .mk 69580 69599 1, .mk 69623 69631 1,
   .mk 69710 69713 1, .mk 69750 69758 1, .mk 69821 69821 1, .mk 69827 69839 1, .mk 69865 69871 1,
   .mk 69882 69887 1, .mk 69941 69941 1, .mk 69960 69967 1, .mk 70007 70015 1, .mk 70112 70112 1,
   .mk 70133 70143 1, .mk 70162 70162 1, .mk 70207 70271 1, .mk 70279 70281 2, .mk 70286 70286 1,
   .mk 70302 70302 1, .mk 70314 70319 1, .mk 70379 70383 1, .mk 70394 70399 1, .mk 70404 70404 1,
   .mk 70413 70414 1, .mk 70417 70418 1, .mk 70441 70441 1, .mk 70449 70449 1, .mk 70452 70452 1,
   .mk 70458 70458 1, .mk 70469 70470 1, .mk 70473 70474 1, .mk 70478 70479 1, .mk 70481 70486 1,
   .mk 70488 70492 1, .mk 70500 70501 1, .mk 70509 70511 1, .mk 70517 70655 1, .mk 70748 70748 1,
   .mk 70754 70783 1, .mk 70856 70863 1, .mk 70874 71039 1, .mk 71094 71095 1, .mk 71134 71167 1,
   .mk 71237 71247 1, .mk 71258 71263 1, .mk 71277 71295 1, .mk 71354 71359 1, .mk 71370 71423 1,
   .mk 71451 71452 1, .mk 71468 71471 1, .mk 71495 71679 1, .mk 71740 71839 1, .mk 71923 71934 1,
   .mk 71943 71944 1, .mk 71946 71947 1, .mk 71956 71956 1, .mk 71959 71959 1, .mk 71990 71990 1,
   .mk 71993 71994 1, .mk 72007 72015 1, .mk 72026 72095 1, .mk 72104 72105 1, .mk 72152 72153 1,
   .mk 72165 72191 1, .mk 72264 72271 1, .mk 72355 72367 1, .mk 72441 72703 1, .mk 72713 72713 1,
   .mk 72759 72759 1, .mk 72774 72783 1, .mk 72813 72815 1, .mk 72848 72849 1, .mk 72872 72872 1,
   .mk 72887 72959 1, .mk 72967 72967 1, .mk 72970 72970 1, .mk 73015 73017 1, .mk 73019 73019 1,
   .mk 73022 73022 1, .mk 73032 73039 1, .mk 73050 73055 1, .mk 73062 73062 1, .mk 73065 73065 1,
   .mk 73103 73103 1, .mk 73106 73106 1, .mk 73113 73119 1, .mk 73130 73439 1, .mk 73465 73647 1,
   .mk 73649 73663 1, .mk 73714 73726 1, .mk 74650 74751 1, .mk 74863 74863 1, .mk 74869 74879 1,
   .mk 75076 77711 1, .mk 77811 77823 1, .mk 78895 82943 1, .mk 83527 92159 1, .mk 92729 92735 1,
   .mk 92767 92767 1, .mk 92778 92781 1, .mk 92863 92863 1, .mk 92874 92879 1, .mk 92910 92911 1,
   .mk 92918 92927 1, .mk 92998 93007 1, .mk 93018 93018 1, .mk 93026 93026 1, .mk 93048 93052 1,
   .mk 93072 93759 1, .mk 93851 93951 1, .mk 94027 94030 1, .mk 94088 94094 1, .mk 94112 94175 1,
   .mk 94181 94191 1, .mk 94194 94207 1, .mk 100344 100351 1, .mk 101590 101631 1,
   .mk 101641 110575 1, .mk 110580 110580 1, .mk 110588 110588 1, .mk 110591 110591 1,
   .mk 110883 110927 1, .mk 110931 110947 1, .mk 110952 110959 1, .mk 111356 113663 1,
   .mk 113771 113775 1, .mk 113789 113791 1, .mk 113801 113807 1, .mk 113818 113819 1,
   .mk 113824 118527 1, .mk 118574 118575 1, .mk 118599 118607 1, .mk 118724 118783 1,
   .mk 119030 119039 1, .mk 119079 119080 1, .mk 119155 119162 1, .mk 119275 119295 1,
   .mk 119366 119519 1, .mk 119540 119551 1, .mk 119639 119647 1, .mk 119673 119807 1,
   .mk 119893 119893 1, .mk 119965 119965 1, .mk 119968 119969 1, .mk 119971 119972 1,
   .mk 119975 119976 1, .mk 119981 119981 1, .mk 119994 119996 2, .mk 120004 120004 1,
   .mk 120070 120070 1, .mk 120075 120076 1, .mk 120085 120085 1, .mk 120093 120093 1,
   .mk 120122 120122 1, .mk 120127 120127 1, .mk 120133 120133 1, .mk 120135 120137 1,
   .mk 120145 120145 1, .mk 120486 120487 1, .mk 120780 120781 1, .mk 121484 121498 1,
   .mk 121504 121504 1, .mk 121520 122623 1, .mk 122655 122879 1, .mk 122887 122887 1,
   .mk 122905 122906 1, .mk 122914 122914 1, .mk 122917 122917 1, .mk 122923 123135 1,
   .mk 123181 123183 1, .mk 123198 123199 1, .mk 123210 123213 1, .mk 123216 123535 1,
   .mk 123567 123583 1, .mk 123642 123646 1, .mk 123648 124895 1, .mk 124903 124903 1,
   .mk 124908 124908 1, .mk 124911 124911 1, .mk 124927 124927 1, .mk 125125 125126 1,
   .mk 125143 125183 1, .mk 125260 125263 1, .mk 125274 125277 1, .mk 125280 126064 1,
   .mk 126133 126208 1, .mk 126270 126463 1, .mk 126468 126468 1, .mk 126496 126496 1,
   .mk 126499 126499 1, .mk 126501 126502 1, .mk 126504 126504 1, .mk 126515 126515 1,
   .mk 126520 126522 2, .mk 126524 126529 1, .mk 126531 126534 1, .mk 126536 126540 2,
   .mk 126544 126544 1, .mk 126547 126547 1, .mk 126549 126550 1, .mk 126552 126560 2,
   .mk 126563 126563 1, .mk 126565 126566 1, .mk 126571 126571 1, .mk 126579 126579 1,
   .mk 126584 126584 1, .mk 126589 126591 2, .mk 126602 126602 1, .mk 126620 126624 1,
   .mk 126628 126628 1, .mk 126634 126634 1, .mk 126652 126703 1, .mk 126706 126975 1,
   .mk 127020 127023 1, .mk 127124 127135 1, .mk 127151 127152 1, .mk 127168 127168 1,
   .mk 127184 127184 1, .mk 127222 127231 1, .mk 127406 127461 1, .mk 127491 127503 1,
   .mk 127548 127551 1, .mk 127561 127567 1, .mk 127570 127583 1, .mk 127590 127743 1,
   .mk 128728 128732 1, .mk 128749 128751 1, .mk 128765 128767 1, .mk 128884 128895 1,
   .mk 128985 128991 1, .mk 129004 129007 1, .mk 129009 129023 1, .mk 129036 129039 1,
   .mk 129096 129103 1, .mk 129114 129119 1, .mk 129160 129167 1, .mk 129198 129199 1,
   .mk 129202 129279 1, .mk 129620 129631 1, .mk 129646 129647 1, .mk 129653 129655 1,
   .mk 129661 129663 1, .mk 129671 129679 1, .mk 129709 129711 1, .mk 129723 129727 1,
   .mk 129734 129743 1, .mk 129754 129759 1, .mk 129768 129775 1, .mk 129783 129791 1,
   .mk 129939 129939 1, .mk 129995 130031 1, .mk 130042 131071 1, .mk 173792 173823 1,
   .mk 177977 177983 1, .mk 178206 178207 1, .mk 183970 183983 1, .mk 191457 194559 1,
   .mk 195102 196607 1, .mk 201547 917759 1, .mk 918000 1114111 1]

/-- Letters in title case. -/
def titleCaseLetters : List Run :=
  [.mk 453 453 1, .mk 456 456 1, .mk 459 459 1, .mk 498 498 1, .mk 8072 8079 1, .mk 8088 8095 1,
   .mk 8104 8111 1, .mk 8124 8124 1, .mk 8140 8140 1, .mk 8188 8188 1]

end CommandFiles.Text
